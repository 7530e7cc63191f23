import Correlator.Proofs.Decoder.LookAhead

/-!
# One step of a decoder

What `Decoder.next` does, by what lies ahead of the stream: a slice that another one
follows, the last slice, nothing, or something that cannot be read.
-/

namespace Correlator
namespace Decoder

variable {d : Decoder} {number : Int32} {runs : List Run} {rest : List UInt8}
  {header : RunHeader} {reason : DecodeError}

theorem next_of_finished (h : d.finished = true) : d.next = ⟨.ok none, [], d⟩ := by
  rw [next, if_pos h]

def Fails (d : Decoder) (reason : DecodeError) : Prop :=
  ∃ source events, d.next = ⟨.error reason, events, { d with source, finished := true }⟩

theorem fails_of_slice {tape : Tape} (hd : d.finished = false)
    (h : d.setup.slice? { source := d.source } = .error reason tape) : d.Fails reason := by
  refine ⟨tape.source, tape.events.toList, ?_⟩
  rw [next, if_neg (by simp [hd]), h]

/-- A step over the runs of a slice is decided by what lies behind them. -/
theorem next_of_runs (hd : d.finished = false) (hne : runs ≠ [])
    (hruns : d.setup.RunsAt number d.source.ahead runs rest) :
    ∃ tape, Tape.Reaches { source := d.source } rest
        (.opened number :: runs.flatMap d.setup.runEvents) tape ∧
      d.next =
        match d.setup.lookAhead number tape with
        | .error reason tape =>
          ⟨.error reason, tape.events.toList, { d with source := tape.source, finished := true }⟩
        | .ok ended tape =>
          { result := .ok (some number)
            events := tape.events.toList
            decoder :=
              { d with source := tape.source, slices := d.slices + 1, finished := ended } } := by
  obtain ⟨tape, hreach, hslice⟩ :=
    Setup.slice_of_runs { source := d.source } hne hruns
  refine ⟨tape, hreach, ?_⟩
  rw [next, if_neg (by simp [hd]), hslice]
  cases d.setup.lookAhead number tape <;> rfl

theorem next_of_other (hd : d.finished = false) (hne : runs ≠ [])
    (hruns : d.setup.RunsAt number d.source.ahead runs rest)
    (hrest : Stored.width RunCounts ≤ rest.length)
    (hheader : RunHeader.ofBytes (rest.take (Stored.width RunCounts)) = .ok header)
    (hnumber : header.slice ≠ number) (hseek : d.source.seekFault = none) :
    ∃ source, d.source.Reaches rest source ∧
      d.next = ⟨.ok (some number), .opened number :: runs.flatMap d.setup.runEvents,
        { d with source, slices := d.slices + 1 }⟩ := by
  obtain ⟨tape, hreach, hnext⟩ := next_of_runs hd hne hruns
  have hahead := hreach.source.ahead
  subst hahead
  obtain ⟨tape₁, hlook, hback⟩ := Setup.lookAhead_of_other d.setup hrest hheader hnumber
    (hreach.source.seekFault.trans hseek)
  have hlast := hreach.trans hback
  refine ⟨tape₁.source, hlast.source, ?_⟩
  rw [hnext, hlook]
  simp only [hlast.events, List.append_nil, List.nil_append, hd]

theorem next_of_last (hd : d.finished = false) (hne : runs ≠ [])
    (hruns : d.setup.RunsAt number d.source.ahead runs rest)
    (hrest : rest.length < Stored.width RunCounts) (hfault : d.source.readFault = none) :
    ∃ source, d.source.Reaches [] source ∧
      d.next = ⟨.ok (some number),
        .opened number :: runs.flatMap d.setup.runEvents ++ Setup.leftOver rest.length,
        { d with source, slices := d.slices + 1, finished := true }⟩ := by
  obtain ⟨tape, hreach, hnext⟩ := next_of_runs hd hne hruns
  have hahead := hreach.source.ahead
  subst hahead
  obtain ⟨tape₁, hlook, hend⟩ := Setup.lookAhead_of_short d.setup number hrest
    (hreach.source.readFault.trans hfault)
  have hlast := hreach.trans hend
  refine ⟨tape₁.source, hlast.source, ?_⟩
  rw [hnext, hlook]
  simp only [hlast.events, List.nil_append]

/-- If reading ahead fails behind the runs of a slice, so does the step. -/
theorem fails_of_runs (hd : d.finished = false) (hne : runs ≠ [])
    (hruns : d.setup.RunsAt number d.source.ahead runs rest)
    (hlook : ∀ tape : Tape, d.source.Reaches rest tape.source →
      ∃ tape', d.setup.lookAhead number tape = .error reason tape') : d.Fails reason := by
  obtain ⟨tape, hreach, hnext⟩ := next_of_runs hd hne hruns
  obtain ⟨tape₁, hfails⟩ := hlook tape hreach.source
  exact ⟨tape₁.source, tape₁.events.toList, by rw [hnext, hfails]⟩

theorem fails_of_corrupt (hd : d.finished = false) (hne : runs ≠ [])
    (hruns : d.setup.RunsAt number d.source.ahead runs rest)
    (hrest : Stored.width RunCounts ≤ rest.length)
    (hheader : RunHeader.ofBytes (rest.take (Stored.width RunCounts)) = .error reason) :
    d.Fails reason := by
  refine fails_of_runs hd hne hruns fun tape hreach => ?_
  rw [← hreach.ahead] at hrest hheader
  exact Setup.lookAhead_of_corrupt d.setup number hrest hheader

theorem fails_of_stuck {why : String} (hd : d.finished = false) (hne : runs ≠ [])
    (hruns : d.setup.RunsAt number d.source.ahead runs rest)
    (hrest : Stored.width RunCounts ≤ rest.length)
    (hheader : RunHeader.ofBytes (rest.take (Stored.width RunCounts)) = .ok header)
    (hnumber : header.slice ≠ number) (hseek : d.source.seekFault = some why) :
    d.Fails (.stream why) := by
  refine fails_of_runs hd hne hruns fun tape hreach => ?_
  rw [← hreach.ahead] at hrest hheader
  exact Setup.lookAhead_of_stuck d.setup hrest hheader hnumber (hreach.seekFault.trans hseek)

theorem fails_of_broken (hd : d.finished = false) (hne : runs ≠ [])
    (hruns : d.setup.RunsAt number d.source.ahead runs rest)
    (hrest : Stored.width RunCounts ≤ rest.length)
    (hheader : RunHeader.ofBytes (rest.take (Stored.width RunCounts)) = .ok header)
    (hnumber : header.slice = number)
    (hrecords : Run.parser d.setup.channels header (rest.drop (Stored.width RunCounts))
      = .error reason)
    (hfault : d.source.readFault = none) (hchannels : 0 < d.setup.channels) :
    d.Fails reason := by
  refine fails_of_runs hd hne hruns fun tape hreach => ?_
  rw [← hreach.ahead] at hrest hheader hrecords
  exact Setup.lookAhead_of_broken hrest hheader hnumber hrecords (hreach.readFault.trans hfault)
    hchannels

/- A stream that does not stand at a complete run. -/

theorem next_of_end (hd : d.finished = false)
    (hshort : d.source.ahead.length < Stored.width RunCounts)
    (hfault : d.source.readFault = none) :
    ∃ source, d.source.Reaches [] source ∧
      d.next = ⟨.ok none, Setup.leftOver d.source.ahead.length,
        { d with source, finished := true }⟩ := by
  obtain ⟨tape, hnext, hreach⟩ :=
    Setup.nextHeader_of_short { source := d.source } hshort hfault
  refine ⟨tape.source, hreach.source, ?_⟩
  rw [next, if_neg (by simp [hd]), Setup.slice?, hnext]
  simp only [hreach.events, List.nil_append]

theorem fails_of_corrupt_first (hd : d.finished = false)
    (hwhole : Stored.width RunCounts ≤ d.source.ahead.length)
    (hheader : RunHeader.ofBytes (d.source.ahead.take (Stored.width RunCounts))
      = .error reason) :
    d.Fails reason := by
  obtain ⟨tape, hnext⟩ :=
    Setup.nextHeader_of_corrupt { source := d.source } hwhole hheader
  have hslice : d.setup.slice? { source := d.source } = .error reason tape := by
    rw [Setup.slice?, hnext]
  exact fails_of_slice hd hslice

theorem fails_of_broken_first (hd : d.finished = false)
    (hwhole : Stored.width RunCounts ≤ d.source.ahead.length)
    (hheader : RunHeader.ofBytes (d.source.ahead.take (Stored.width RunCounts))
      = .ok header)
    (hrecords : Run.parser d.setup.channels header
      (d.source.ahead.drop (Stored.width RunCounts)) = .error reason)
    (hfault : d.source.readFault = none) (hchannels : 0 < d.setup.channels) :
    d.Fails reason := by
  obtain ⟨tape₁, hnext, hreach⟩ :=
    Setup.nextHeader_of_header { source := d.source } hwhole hheader
  rw [← hreach.source.ahead] at hrecords
  obtain ⟨tape₂, hrun⟩ := Setup.records_error
    { tape₁ with events := tape₁.events.push (.opened header.slice) } hrecords
    (hreach.source.readFault.trans hfault) hchannels
  have hslice : d.setup.slice? { source := d.source } = .error reason tape₂ := by
    rw [Setup.slice?, hnext]
    dsimp only
    rw [Setup.restOfSlice_of_error hrun]
  exact fails_of_slice hd hslice

end Decoder
end Correlator
