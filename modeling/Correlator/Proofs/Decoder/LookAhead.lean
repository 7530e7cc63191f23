import Correlator.Proofs.Decoder.Records

/-!
# Reading ahead

After the records of a run the decoder looks at the next header.  `lookAhead` is that
part of decoding a slice.  `lookAhead_of_runs` takes it over complete runs of the same
slice, whatever their number, and the lemmas after it say what happens behind the last
of them, by what lies there.
-/

namespace Correlator

namespace Setup

open Decoding

/-- What is left of a slice once the records of one of its runs have been read. -/
def lookAhead (s : Setup) (slice : Int32) (tape : Tape) : EStateM.Result DecodeError Tape Bool :=
  match nextHeader? tape with
  | .error reason tape => .error reason tape
  | .ok none tape => .ok true tape
  | .ok (some next) tape =>
    if next.slice = slice then s.restOfSlice next tape
    else
      match handBack tape with
      | .error reason tape => .error reason tape
      | .ok () tape => .ok false tape

variable {s : Setup} {slice : Int32} {header : RunHeader} {tape tape' : Tape}
  {reason : DecodeError}

theorem restOfSlice_of_ok (h : s.records header tape = .ok () tape') :
    s.restOfSlice header tape = s.lookAhead header.slice tape' := by
  rw [restOfSlice]
  split
  · rename_i heq
    simp [h] at heq
  · rename_i tape₁ heq
    rw [h] at heq
    simp only [EStateM.Result.ok.injEq, true_and] at heq
    subst heq
    unfold lookAhead
    cases nextHeader? tape' with
    | error reason tape₁ => rfl
    | ok next tape₁ => cases next <;> rfl

theorem restOfSlice_of_error (h : s.records header tape = .error reason tape') :
    s.restOfSlice header tape = .error reason tape' := by
  rw [restOfSlice]
  split
  · rename_i heq
    rw [h] at heq
    simp only [EStateM.Result.error.injEq] at heq
    rw [heq.1, heq.2]
  · rename_i heq
    simp [h] at heq

/- The next header, by what lies ahead. -/

theorem nextHeader_of_short (tape : Tape) (h : tape.source.ahead.length < Stored.width RunCounts)
    (hfault : tape.source.readFault = none) :
    ∃ tape', nextHeader? tape = .ok none tape' ∧
      tape.Reaches [] (leftOver tape.source.ahead.length) tape' := by
  obtain ⟨source, hfill, hreach⟩ := tape.source.fill_of_lt _ h hfault
  unfold nextHeader? leftOver
  rw [hfill]
  split
  · simp_all
  · rename_i heq
    simp only [Prod.mk.injEq, Except.ok.injEq] at heq
    obtain ⟨hnil, rfl⟩ := heq
    exact ⟨_, rfl, hreach, by simp [hnil]⟩
  · rename_i bytes source' hne heq
    simp only [Prod.mk.injEq, Except.ok.injEq] at heq
    obtain ⟨rfl, rfl⟩ := heq
    rw [if_pos h, if_neg (by rw [List.length_eq_zero_iff]; exact fun hnil => hne hnil)]
    exact ⟨_, rfl, hreach, by simp⟩

/-- If the stream fails, it may do so before it is known to be too short. -/
theorem nextHeader_of_lt (tape : Tape) (h : tape.source.ahead.length < Stored.width RunCounts) :
    (∃ tape', nextHeader? tape = .ok none tape') ∨
      ∃ why tape', nextHeader? tape = .error (.stream why) tape' := by
  obtain ⟨source, hfill, -⟩ := tape.source.fill_eq (Stored.width RunCounts)
  rw [Source.supply, if_neg (by omega)] at hfill
  unfold nextHeader?
  rw [hfill]
  cases tape.source.obstacleBehind? with
  | some why => exact .inr ⟨why, _, rfl⟩
  | none =>
    left
    dsimp only
    split
    · simp_all
    · exact ⟨_, rfl⟩
    · rename_i heq
      simp only [Prod.mk.injEq, Except.ok.injEq] at heq
      rw [← heq.1, if_pos h]
      exact ⟨_, rfl⟩

theorem nextHeader_of_le (tape : Tape) (h : Stored.width RunCounts ≤ tape.source.ahead.length) :
    ∃ source, tape.source.Reaches (tape.source.ahead.drop (Stored.width RunCounts)) source ∧
      nextHeader? tape =
        match RunHeader.ofBytes (tape.source.ahead.take (Stored.width RunCounts)) with
        | .error reason => .error reason { tape with source }
        | .ok header => .ok (some header) { tape with source } := by
  obtain ⟨source, hfill, hreach⟩ := tape.source.fill_of_le _ h
  have hwidth : 0 < Stored.width RunCounts := by decide
  refine ⟨source, hreach, ?_⟩
  unfold nextHeader?
  rw [hfill]
  split
  · simp_all
  · rename_i heq
    have hlength := congrArg List.length (Except.ok.inj (congrArg Prod.fst heq))
    simp only [List.length_take, List.length_nil] at hlength
    omega
  · rename_i bytes source' hne heq
    simp only [Prod.mk.injEq, Except.ok.injEq] at heq
    obtain ⟨rfl, rfl⟩ := heq
    exact if_neg (by rw [List.length_take]; omega)

theorem nextHeader_of_corrupt (tape : Tape) (h : Stored.width RunCounts ≤ tape.source.ahead.length)
    (hheader : RunHeader.ofBytes (tape.source.ahead.take (Stored.width RunCounts))
      = .error reason) :
    ∃ tape', nextHeader? tape = .error reason tape' := by
  obtain ⟨source, -, hnext⟩ := nextHeader_of_le tape h
  exact ⟨{ tape with source }, by rw [hnext, hheader]⟩

theorem nextHeader_of_header (tape : Tape) (h : Stored.width RunCounts ≤ tape.source.ahead.length)
    (hheader : RunHeader.ofBytes (tape.source.ahead.take (Stored.width RunCounts))
      = .ok header) :
    ∃ tape', nextHeader? tape = .ok (some header) tape' ∧
      tape.Reaches (tape.source.ahead.drop (Stored.width RunCounts)) [] tape' := by
  obtain ⟨source, hreach, hnext⟩ := nextHeader_of_le tape h
  exact ⟨{ tape with source }, by rw [hnext, hheader], hreach, by simp⟩

/-- A run that lies at the front of `bytes`, is complete, and can be dealt with. -/
structure RunAt (s : Setup) (bytes : List UInt8) (run : Run) (rest : List UInt8) : Prop where
  enough : Stored.width RunCounts ≤ bytes.length
  records : ∃ header, RunHeader.ofBytes (bytes.take (Stored.width RunCounts)) = .ok header ∧
    Run.parser s.channels header (bytes.drop (Stored.width RunCounts)) = .ok (run, rest)
  accepted : s.Accepts run

theorem runAt_encode {run : Run} (hchannels : 0 < s.channels) (hrun : run.WellFormed s.channels)
    (rest : List UInt8) : s.RunAt (run.encode ++ rest) run rest := by
  obtain ⟨hwhole, hheader, hrecords⟩ := hrun.encode_append rest
  exact ⟨hwhole, ⟨run.header, hheader, hrecords⟩, accepts_of_samples hchannels hrun.samples⟩

theorem runAt_ofBytes {run : Run} (hchannels : 0 < s.channels) (hrun : run.WellFormed s.channels)
    (rest : List UInt8) : s.RunAt (Source.ofBytes (run.encode ++ rest)).ahead run rest := by
  rw [(Source.serves_ofBytes _).ahead]
  exact runAt_encode hchannels hrun rest

/-- Complete runs of one slice, one after another. -/
inductive RunsAt (s : Setup) (slice : Int32) : List UInt8 → List Run → List UInt8 → Prop
  | nil (bytes : List UInt8) : RunsAt s slice bytes [] bytes
  | cons {bytes middle rest : List UInt8} {run : Run} {runs : List Run} :
    s.RunAt bytes run middle → run.slice = slice → RunsAt s slice middle runs rest →
      RunsAt s slice bytes (run :: runs) rest

theorem RunsAt.slice_eq {bytes rest : List UInt8} {runs : List Run}
    (h : s.RunsAt slice bytes runs rest) : ∀ r ∈ runs, r.slice = slice := by
  induction h with
  | nil => simp
  | cons _ hslice _ ih =>
    intro r hr
    rcases List.mem_cons.mp hr with rfl | hr
    · exact hslice
    · exact ih r hr

theorem lookAhead_of_run {run : Run} {rest : List UInt8}
    (h : s.RunAt tape.source.ahead run rest) (hslice : run.slice = slice) :
    ∃ tape', s.lookAhead slice tape = s.lookAhead slice tape' ∧
      tape.Reaches rest (s.runEvents run) tape' := by
  obtain ⟨header, hheader, hrecords⟩ := h.records
  obtain ⟨tape₁, hnext, hreach₁⟩ := nextHeader_of_header tape h.enough hheader
  have hsame : header.slice = slice := (Run.slice_samples_of_parse hrecords).1.symm.trans hslice
  rw [← hreach₁.source.ahead] at hrecords
  obtain ⟨tape₂, hrun, hreach₂⟩ := records_ok tape₁ hrecords h.accepted
  refine ⟨tape₂, ?_, hreach₁.trans hreach₂⟩
  rw [lookAhead, hnext]
  dsimp only
  rw [if_pos hsame, restOfSlice_of_ok hrun, hsame]

theorem lookAhead_of_runs {bytes rest : List UInt8} {runs : List Run}
    (h : s.RunsAt slice bytes runs rest) (hbytes : tape.source.ahead = bytes) :
    ∃ tape', s.lookAhead slice tape = s.lookAhead slice tape' ∧
      tape.Reaches rest (runs.flatMap s.runEvents) tape' := by
  induction h generalizing tape with
  | nil bytes =>
    subst hbytes
    exact ⟨tape, rfl, Tape.Reaches.refl tape⟩
  | cons hrun hslice _ ih =>
    subst hbytes
    obtain ⟨tape₁, hahead₁, hreach₁⟩ := lookAhead_of_run hrun hslice
    obtain ⟨tape₂, hahead₂, hreach₂⟩ := ih hreach₁.source.ahead
    exact ⟨tape₂, hahead₁.trans hahead₂, hreach₁.trans hreach₂⟩

/-- The first run opens a slice, and the runs after it go on with it. -/
theorem slice_of_runs (tape : Tape) {rest : List UInt8} {runs : List Run} (hne : runs ≠ [])
    (h : s.RunsAt slice tape.source.ahead runs rest) :
    ∃ tape', tape.Reaches rest (.opened slice :: runs.flatMap s.runEvents) tape' ∧
      s.slice? tape =
        match s.lookAhead slice tape' with
        | .error reason tape => .error reason tape
        | .ok ended tape => .ok (some ⟨slice, ended⟩) tape := by
  generalize hbytes : tape.source.ahead = bytes at h
  cases h with
  | nil => exact absurd rfl hne
  | cons hrun hslice hrest =>
    subst hbytes
    obtain ⟨header, hheader, hrecords⟩ := hrun.records
    obtain ⟨tape₁, hnext, hreach₁⟩ := nextHeader_of_header tape hrun.enough hheader
    have hsame : header.slice = slice :=
      (Run.slice_samples_of_parse hrecords).1.symm.trans hslice
    have hopened : tape₁.Reaches tape₁.source.ahead [.opened header.slice]
        { tape₁ with events := tape₁.events.push (.opened header.slice) } :=
      ⟨Source.Reaches.refl _, by simp⟩
    rw [hreach₁.source.ahead] at hopened
    rw [← hreach₁.source.ahead] at hrecords
    obtain ⟨tape₂, hrecord, hreach₂⟩ := records_ok
      { tape₁ with events := tape₁.events.push (.opened header.slice) } hrecords hrun.accepted
    obtain ⟨tape₃, hahead, hreach₃⟩ := lookAhead_of_runs hrest hreach₂.source.ahead
    refine ⟨tape₃, ?_, ?_⟩
    · have hreach := ((hreach₁.trans hopened).trans hreach₂).trans hreach₃
      rw [hsame] at hreach
      exact hreach
    · have hfirst : s.restOfSlice header
          { tape₁ with events := tape₁.events.push (.opened header.slice) }
          = s.lookAhead slice tape₃ := by
        rw [restOfSlice_of_ok hrecord, hsame, hahead]
      subst hsame
      unfold slice?
      rw [hnext]
      exact hfirst ▸ rfl

/- What happens behind the last run, by what lies there. -/

theorem lookAhead_of_short (s : Setup) (slice : Int32)
    (h : tape.source.ahead.length < Stored.width RunCounts)
    (hfault : tape.source.readFault = none) :
    ∃ tape', s.lookAhead slice tape = .ok true tape' ∧
      tape.Reaches [] (leftOver tape.source.ahead.length) tape' := by
  obtain ⟨tape₁, hnext, hreach⟩ := nextHeader_of_short tape h hfault
  exact ⟨tape₁, by rw [lookAhead, hnext], hreach⟩

theorem lookAhead_of_corrupt (s : Setup) (slice : Int32)
    (h : Stored.width RunCounts ≤ tape.source.ahead.length)
    (hheader : RunHeader.ofBytes (tape.source.ahead.take (Stored.width RunCounts))
      = .error reason) :
    ∃ tape', s.lookAhead slice tape = .error reason tape' := by
  obtain ⟨tape₁, hnext⟩ := nextHeader_of_corrupt tape h hheader
  exact ⟨tape₁, by rw [lookAhead, hnext]⟩

/-- A header of another slice is handed back, so that the stream stands where it stood
before the header was read. -/
theorem lookAhead_of_other (s : Setup) (h : Stored.width RunCounts ≤ tape.source.ahead.length)
    (hheader : RunHeader.ofBytes (tape.source.ahead.take (Stored.width RunCounts))
      = .ok header)
    (hslice : header.slice ≠ slice) (hseek : tape.source.seekFault = none) :
    ∃ tape', s.lookAhead slice tape = .ok false tape' ∧
      tape.Reaches tape.source.ahead [] tape' := by
  obtain ⟨tape₁, hnext, hreach⟩ := nextHeader_of_header tape h hheader
  have hback : tape₁.source.pos - Stored.width RunCounts = tape.source.pos := by
    have hpos := hreach.source.pos
    rw [List.length_drop] at hpos
    omega
  have hhand : handBack tape₁
      = .ok () { tape₁ with source := { tape₁.source with pos := tape.source.pos } } := by
    have hnone := hreach.source.seekFault.trans hseek
    simp only [handBack, Source.seek, hnone, hback]
  refine ⟨_, by rw [lookAhead, hnext]; dsimp only; rw [if_neg hslice, hhand], ?_⟩
  exact ⟨hreach.source.back, hreach.events⟩

theorem lookAhead_of_stuck (s : Setup) {why : String}
    (h : Stored.width RunCounts ≤ tape.source.ahead.length)
    (hheader : RunHeader.ofBytes (tape.source.ahead.take (Stored.width RunCounts))
      = .ok header)
    (hslice : header.slice ≠ slice) (hseek : tape.source.seekFault = some why) :
    ∃ tape', s.lookAhead slice tape = .error (.stream why) tape' := by
  obtain ⟨tape₁, hnext, hreach⟩ := nextHeader_of_header tape h hheader
  have hhand : handBack tape₁ = .error (.stream why) tape₁ := by
    unfold handBack Source.seek
    rw [hreach.source.seekFault, hseek]
  exact ⟨tape₁, by rw [lookAhead, hnext]; dsimp only; rw [if_neg hslice, hhand]⟩

theorem lookAhead_of_broken (h : Stored.width RunCounts ≤ tape.source.ahead.length)
    (hheader : RunHeader.ofBytes (tape.source.ahead.take (Stored.width RunCounts))
      = .ok header)
    (hslice : header.slice = slice)
    (hrecords : Run.parser s.channels header (tape.source.ahead.drop (Stored.width RunCounts))
      = .error reason)
    (hfault : tape.source.readFault = none) (hchannels : 0 < s.channels) :
    ∃ tape', s.lookAhead slice tape = .error reason tape' := by
  obtain ⟨tape₁, hnext, hreach⟩ := nextHeader_of_header tape h hheader
  rw [← hreach.source.ahead] at hrecords
  have hfault₁ := hreach.source.readFault.trans hfault
  obtain ⟨tape₂, hrun⟩ := records_error tape₁ hrecords hfault₁ hchannels
  exact ⟨tape₂, by rw [lookAhead, hnext]; dsimp only; rw [if_pos hslice, restOfSlice_of_error hrun]⟩

end Setup
end Correlator
