import Correlator.Proofs.Decoder.Step
import Correlator.Proofs.Transcript.Basic

/-!
# Decoders before a transcript

`Ready` says that the bytes ahead of an unfinished decoder have a certain transcript.
The lemmas after it say what the next step does, by how the transcript begins, and that
a step over a slice leaves the decoder ready for the rest of the transcript.
-/

namespace Correlator

namespace Setup

variable {s : Setup}

theorem runAt_of_reads {bytes : List UInt8} {run : Run} {runs : List Run} {ending : Ending}
    (hchannels : 0 < s.channels) (h : Transcript.Reads s.channels bytes ⟨run :: runs, ending⟩) :
    ∃ rest, s.RunAt bytes run rest ∧ Transcript.Reads s.channels rest ⟨runs, ending⟩ := by
  cases h with
  | run hwhole hheader hrecords hrest =>
    have hsamples := (Run.slice_samples_of_parse hrecords).2
    exact ⟨_, ⟨hwhole, ⟨_, hheader, hrecords⟩, accepts_of_samples hchannels hsamples⟩, hrest⟩

/-- Runs of one slice at the front of a transcript are runs of one slice in the bytes. -/
theorem runsAt_of_reads {slice : Int32} {block others : List Run} {ending : Ending}
    (hchannels : 0 < s.channels) (hblock : ∀ r ∈ block, r.slice = slice) {bytes : List UInt8}
    (h : Transcript.Reads s.channels bytes ⟨block ++ others, ending⟩) :
    ∃ rest, s.RunsAt slice bytes block rest ∧
      Transcript.Reads s.channels rest ⟨others, ending⟩ := by
  induction block generalizing bytes with
  | nil => exact ⟨bytes, .nil bytes, h⟩
  | cons run block ih =>
    obtain ⟨middle, hrun, hmiddle⟩ := runAt_of_reads hchannels h
    obtain ⟨rest, hruns, hrest⟩ := ih (fun r hr => hblock r (List.mem_cons_of_mem run hr)) hmiddle
    exact ⟨rest, .cons hrun (hblock run List.mem_cons_self) hruns, hrest⟩

theorem runsAt_of_reads_last {slice : Int32} {block : List Run} {ending : Ending}
    (hchannels : 0 < s.channels) (hblock : ∀ r ∈ block, r.slice = slice) {bytes : List UInt8}
    (h : Transcript.Reads s.channels bytes ⟨block, ending⟩) :
    ∃ rest, s.RunsAt slice bytes block rest ∧ Transcript.Reads s.channels rest ⟨[], ending⟩ :=
  runsAt_of_reads hchannels hblock (by rwa [List.append_nil])

/-- The slice that a transcript opens with is named by a sound header. -/
theorem header_of_reads {channels : Nat} {bytes : List UInt8} {t : Transcript} {slice : Int32}
    (h : Transcript.Reads channels bytes t) (hslice : t.slice? = some slice) :
    Stored.width RunCounts ≤ bytes.length ∧ ∃ header,
      RunHeader.ofBytes (bytes.take (Stored.width RunCounts)) = .ok header ∧
        header.slice = slice := by
  cases h with
  | clean => simp [Transcript.slice?] at hslice
  | corrupt => simp [Transcript.slice?] at hslice
  | broken hwhole hheader hrecords =>
    simp only [Transcript.slice?, Option.some.injEq] at hslice
    exact ⟨hwhole, _, hheader, hslice⟩
  | run hwhole hheader hrecords hrest =>
    simp only [Transcript.slice?, Option.some.injEq] at hslice
    have hsame := (Run.slice_samples_of_parse hrecords).1
    exact ⟨hwhole, _, hheader, hsame.symm.trans hslice⟩

end Setup

namespace Decoder

/-- A decoder that has not finished, on a stream without faults, whose bytes ahead have
the transcript `t`. -/
structure Ready (d : Decoder) (t : Transcript) : Prop where
  unfinished : d.finished = false
  channels : 0 < d.setup.channels
  readFault : d.source.readFault = none
  seekFault : d.source.seekFault = none
  reads : Transcript.Reads d.setup.channels d.source.ahead t

theorem ready_ofBytes {d : Decoder} (hd : d.finished = false) (hchannels : 0 < d.setup.channels)
    (hread : d.source.readFault = none) (hseek : d.source.seekFault = none) :
    d.Ready (Transcript.ofBytes d.setup.channels d.source.ahead) :=
  ⟨hd, hchannels, hread, hseek, Transcript.reads_ofBytes _ _⟩

namespace Ready

variable {d : Decoder} {block others : List Run} {ending : Ending} {number : Int32}
  {reason : DecodeError}

theorem next_of_nil {left : Nat} (h : d.Ready ⟨[], .clean left⟩) :
    ∃ source, d.next = ⟨.ok none, Setup.leftOver left, { d with source, finished := true }⟩ := by
  cases h.reads with
  | clean hshort =>
    obtain ⟨source, -, hnext⟩ := next_of_end h.unfinished hshort h.readFault
    exact ⟨source, hnext⟩

theorem next_of_other (h : d.Ready ⟨block ++ others, ending⟩) (hne : block ≠ [])
    (hblock : ∀ r ∈ block, r.slice = number) {next : Int32}
    (hnext : Transcript.slice? ⟨others, ending⟩ = some next) (hother : next ≠ number) :
    ∃ source, d.next = ⟨.ok (some number), d.setup.sliceEvents block,
        { d with source, slices := d.slices + 1 }⟩ ∧
      Ready { d with source, slices := d.slices + 1 } ⟨others, ending⟩ := by
  obtain ⟨rest, hruns, hrest⟩ := Setup.runsAt_of_reads h.channels hblock h.reads
  obtain ⟨hwhole, header, hheader, hname⟩ := Setup.header_of_reads hrest hnext
  obtain ⟨source, hreach, hstep⟩ := Decoder.next_of_other h.unfinished hne hruns hwhole hheader
    (by rwa [hname]) h.seekFault
  rw [← hreach.ahead] at hrest
  refine ⟨source, ?_, h.unfinished, h.channels, hreach.readFault.trans h.readFault,
    hreach.seekFault.trans h.seekFault, hrest⟩
  rw [hstep, Setup.sliceEvents, blockNumber_eq hne hblock]

theorem next_of_last {left : Nat} (h : d.Ready ⟨block, .clean left⟩) (hne : block ≠ [])
    (hblock : ∀ r ∈ block, r.slice = number) :
    ∃ source, d.next =
      ⟨.ok (some number), d.setup.sliceEvents block ++ Setup.leftOver left,
        { d with source, slices := d.slices + 1, finished := true }⟩ := by
  obtain ⟨rest, hruns, hrest⟩ := Setup.runsAt_of_reads_last h.channels hblock h.reads
  cases hrest with
  | clean hshort =>
    obtain ⟨source, -, hstep⟩ := Decoder.next_of_last h.unfinished hne hruns hshort h.readFault
    exact ⟨source, by rw [hstep, Setup.sliceEvents, blockNumber_eq hne hblock]⟩

/-- Runs of one slice, if any, with a corrupt header behind them. -/
theorem fails_of_corrupt (h : d.Ready ⟨block, .corrupt reason⟩)
    (hblock : ∀ r ∈ block, r.slice = number) : d.Fails reason := by
  obtain ⟨rest, hruns, hrest⟩ := Setup.runsAt_of_reads_last h.channels hblock h.reads
  cases hrest with
  | corrupt hwhole hheader =>
    by_cases hne : block = []
    · subst hne
      cases hruns
      exact fails_of_corrupt_first h.unfinished hwhole hheader
    · exact Decoder.fails_of_corrupt h.unfinished hne hruns hwhole hheader

/-- Runs of one slice, if any, and another run of it that cannot be read. -/
theorem fails_of_broken (h : d.Ready ⟨block, .broken number reason⟩)
    (hblock : ∀ r ∈ block, r.slice = number) : d.Fails reason := by
  obtain ⟨rest, hruns, hrest⟩ := Setup.runsAt_of_reads_last h.channels hblock h.reads
  cases hrest with
  | broken hwhole hheader hrecords =>
    by_cases hne : block = []
    · subst hne
      cases hruns
      exact fails_of_broken_first h.unfinished hwhole hheader hrecords h.readFault h.channels
    · exact Decoder.fails_of_broken h.unfinished hne hruns hwhole hheader rfl hrecords h.readFault
        h.channels

end Ready
end Decoder
end Correlator
