import Correlator.Proofs.Decoder.Step

/-!
# What there was if a slice was found

The lemmas on a step of a decoder go from the bytes ahead to what the step gives.  These
here go back: if a step gives a slice, then complete runs of that slice were ahead, and behind
them too few bytes for a header, or a header of another slice.
-/

namespace Correlator

namespace Decoding

variable {α : Type}

/-- Records that have been decoded were all there, and none of them was turned down. -/
theorem each_eq_ok {step : Reading α} {p : Parser α} {judge : α → Except DecodeError (List Event)}
    (hstep : Reading.Follows step p) {count : Nat} {tape tape' : Tape}
    (h : each step judge count tape = .ok () tape') :
    ∃ as rest, Parser.many p count tape.source.ahead = .ok (as, rest) ∧
      (∀ a ∈ as, ∃ events, judge a = .ok events) ∧ tape.source.Reaches rest tape'.source := by
  induction count generalizing tape with
  | zero =>
    have htape : tape = tape' := (EStateM.Result.ok.inj h).2
    subst htape
    exact ⟨[], tape.source.ahead, rfl, by simp, Source.Reaches.refl _⟩
  | succ count ih =>
    cases hread : step tape.source with
    | error reason source =>
      rw [each, bind_of_error (reading_of_error tape hread)] at h
      simp at h
    | ok a source =>
      obtain ⟨middle, ha, -⟩ := hstep.parse_of_ok hread
      cases hjudge : judge a with
      | error reason =>
        have hfails : reading (Reading.ofExcept (judge a)) { tape with source }
            = .error reason { tape with source } := by
          rw [hjudge]
          rfl
        rw [each, bind_of_ok (reading_of_ok tape hread), bind_of_error hfails] at h
        simp at h
      | ok events =>
        obtain ⟨tape₁, heach, hreach⟩ :=
          each_succ judge (fun _ => events) hstep count ha hjudge
        rw [heach] at h
        obtain ⟨as, rest, hmany, haccepted, hlast⟩ := ih h
        rw [hreach.source.ahead] at hmany
        refine ⟨a :: as, rest, ?_, ?_, hreach.source.trans hlast⟩
        · rw [Parser.many, Parser.bind_of_ok ha, map_eq_pure_bind, Parser.bind_of_ok hmany]
          rfl
        · intro b hb
          rcases List.mem_cons.mp hb with rfl | hb
          · exact ⟨events, hjudge⟩
          · exact haccepted b hb

end Decoding

namespace Setup

open Decoding

variable {s : Setup} {header : RunHeader} {tape tape' : Tape}

theorem records_eq_ok (h : s.records header tape = .ok () tape') :
    ∃ run rest, Run.parser s.channels header tape.source.ahead = .ok (run, rest) ∧
      s.Accepts run ∧ tape.source.Reaches rest tape'.source := by
  obtain ⟨⟨⟩, tape₁, h₁, h⟩ := bind_eq_ok.mp h
  obtain ⟨⟨⟩, tape₂, h₂, h₃⟩ := bind_eq_ok.mp h
  obtain ⟨uvws, rest₁, huvws, -, hreach₁⟩ := each_eq_ok Uvw.parser_follows h₁
  obtain ⟨occupancies, rest₂, hoccupancies, -, hreach₂⟩ :=
    each_eq_ok Occupancy.parser_follows h₂
  obtain ⟨visibilities, rest₃, hvisibilities, haccepted, hreach₃⟩ :=
    each_eq_ok (Visibility.parser_follows s.channels) h₃
  rw [hreach₁.ahead] at hoccupancies
  rw [hreach₂.ahead] at hvisibilities
  refine ⟨⟨header.slice, uvws, occupancies, visibilities⟩, rest₃, ?_, ?_,
    (hreach₁.trans hreach₂).trans hreach₃⟩
  · rw [Run.parser, Parser.bind_of_ok huvws, Parser.bind_of_ok hoccupancies,
      Parser.bind_of_ok hvisibilities]
    rfl
  · intro v hv
    obtain ⟨events, hjudge⟩ := haccepted v hv
    rw [visibilityEvents, hjudge]

theorem nextHeader_eq_ok {next : Option RunHeader} (h : nextHeader? tape = .ok next tape') :
    match next with
    | none => tape.source.ahead.length < Stored.width RunCounts
    | some header => Stored.width RunCounts ≤ tape.source.ahead.length ∧
        RunHeader.ofBytes (tape.source.ahead.take (Stored.width RunCounts)) = .ok header ∧
        tape.source.Reaches (tape.source.ahead.drop (Stored.width RunCounts)) tape'.source := by
  by_cases hshort : tape.source.ahead.length < Stored.width RunCounts
  · rcases nextHeader_of_lt tape hshort with ⟨tape₁, hnext⟩ | ⟨why, tape₁, hnext⟩
    · rw [hnext, EStateM.Result.ok.injEq] at h
      obtain ⟨rfl, -⟩ := h
      exact hshort
    · simp [hnext] at h
  · obtain ⟨source, hreach, hnext⟩ := nextHeader_of_le tape (Nat.le_of_not_lt hshort)
    rw [hnext] at h
    split at h
    · simp at h
    · rename_i header hheader
      rw [EStateM.Result.ok.injEq] at h
      obtain ⟨rfl, rfl⟩ := h
      exact ⟨Nat.le_of_not_lt hshort, hheader, hreach⟩

/-- What lies behind the last run of a slice, and whether the stream ends there. -/
inductive Closes (slice : Int32) (rest : List UInt8) : Bool → Prop
  | ended : rest.length < Stored.width RunCounts → Closes slice rest true
  | other {header : RunHeader} :
    Stored.width RunCounts ≤ rest.length →
    RunHeader.ofBytes (rest.take (Stored.width RunCounts)) = .ok header →
    header.slice ≠ slice → Closes slice rest false

/-- Back from the rest of a slice, run by run, to the run at its front. -/
theorem restOfSlice_eq_ok {ended : Bool} (h : s.restOfSlice header tape = .ok ended tape') :
    ∃ run middle runs rest, Run.parser s.channels header tape.source.ahead = .ok (run, middle) ∧
      s.Accepts run ∧ s.RunsAt header.slice middle runs rest ∧ Closes header.slice rest ended := by
  fun_induction restOfSlice s header tape with
  | case1 => simp at h
  | case2 => simp at h
  | case3 header tape tape₁ h₁ tape₂ h₂ =>
    obtain ⟨run, middle, hparse, haccepts, hreach⟩ := records_eq_ok h₁
    have hshort := nextHeader_eq_ok h₂
    rw [EStateM.Result.ok.injEq] at h
    obtain ⟨rfl, -⟩ := h
    rw [hreach.ahead] at hshort
    exact ⟨run, middle, [], middle, hparse, haccepts, .nil middle, .ended hshort⟩
  | case4 header tape tape₁ h₁ next tape₂ h₂ hsame ih =>
    obtain ⟨run, middle, hparse, haccepts, hreach₁⟩ := records_eq_ok h₁
    obtain ⟨hwhole, hheader, hreach₂⟩ := nextHeader_eq_ok h₂
    obtain ⟨run', middle', runs, rest, hparse', haccepts', hruns, hcloses⟩ := ih h
    rw [hreach₁.ahead] at hwhole hheader
    rw [hreach₂.ahead, hreach₁.ahead] at hparse'
    rw [hsame] at hruns hcloses
    have hslice := (Run.slice_samples_of_parse hparse').1.trans hsame
    exact ⟨run, middle, run' :: runs, rest, hparse, haccepts,
      .cons ⟨hwhole, ⟨next, hheader, hparse'⟩, haccepts'⟩ hslice hruns, hcloses⟩
  | case5 => simp at h
  | case6 header tape tape₁ h₁ next tape₂ h₂ hother tape₃ h₃ =>
    obtain ⟨run, middle, hparse, haccepts, hreach⟩ := records_eq_ok h₁
    obtain ⟨hwhole, hheader, -⟩ := nextHeader_eq_ok h₂
    rw [EStateM.Result.ok.injEq] at h
    obtain ⟨rfl, -⟩ := h
    rw [hreach.ahead] at hwhole hheader
    exact ⟨run, middle, [], middle, hparse, haccepts, .nil middle, .other hwhole hheader hother⟩

theorem slice_eq_ok {found : Decoded} (h : s.slice? tape = .ok (some found) tape') :
    ∃ runs rest, runs ≠ [] ∧ s.RunsAt found.slice tape.source.ahead runs rest ∧
      Closes found.slice rest found.ended := by
  unfold slice? at h
  split at h
  · simp at h
  · simp at h
  · rename_i header tape₁ h₁
    obtain ⟨hwhole, hheader, hreach⟩ := nextHeader_eq_ok h₁
    split at h
    · simp at h
    · rename_i ended tape₂ h₂
      simp only [EStateM.Result.ok.injEq, Option.some.injEq] at h
      obtain ⟨rfl, -⟩ := h
      obtain ⟨run, middle, runs, rest, hparse, haccepts, hruns, hcloses⟩ :=
        restOfSlice_eq_ok h₂
      rw [hreach.ahead] at hparse
      have hslice := (Run.slice_samples_of_parse hparse).1
      exact ⟨run :: runs, rest, List.cons_ne_nil _ _,
        .cons ⟨hwhole, ⟨header, hheader, hparse⟩, haccepts⟩ hslice hruns, hcloses⟩

end Setup

namespace Decoder

variable {d : Decoder} {number : Int32} {runs : List Run} {rest : List UInt8} {ended : Bool}

theorem runs_of_next (h : d.next.result = .ok (some number)) :
    d.finished = false ∧ ∃ runs rest ended, runs ≠ [] ∧
      d.setup.RunsAt number d.source.ahead runs rest ∧ Setup.Closes number rest ended := by
  cases hd : d.finished with
  | true => simp [next_of_finished hd] at h
  | false =>
    refine ⟨rfl, ?_⟩
    rw [next, if_neg (by simp [hd])] at h
    split at h
    · rename_i found tape hslice
      simp only [Except.ok.injEq, Option.some.injEq] at h
      subst h
      obtain ⟨runs, rest, hne, hruns, hcloses⟩ := Setup.slice_eq_ok hslice
      exact ⟨runs, rest, found.ended, hne, hruns, hcloses⟩
    · simp at h
    · simp at h

/-- The bytes behind a slice that stay ahead: none if the stream ends with it. -/
def unread (rest : List UInt8) (ended : Bool) : List UInt8 := if ended then [] else rest

/-- The number of bytes behind a slice that are ignored. -/
def ignored (rest : List UInt8) (ended : Bool) : Nat := if ended then rest.length else 0

theorem next_of_closes (hd : d.finished = false) (hread : d.source.readFault = none)
    (hseek : d.source.seekFault = none) (hne : runs ≠ [])
    (hruns : d.setup.RunsAt number d.source.ahead runs rest)
    (hcloses : Setup.Closes number rest ended) :
    ∃ source, d.source.Reaches (unread rest ended) source ∧
      d.next = ⟨.ok (some number),
        d.setup.sliceEvents runs ++ Setup.leftOver (ignored rest ended),
        { d with source, slices := d.slices + 1, finished := ended }⟩ := by
  rw [Setup.sliceEvents, blockNumber_eq hne hruns.slice_eq]
  cases hcloses with
  | ended hshort => exact next_of_last hd hne hruns hshort hread
  | other hwhole hheader hother =>
    obtain ⟨source, hreach, hnext⟩ := next_of_other hd hne hruns hwhole hheader hother hseek
    refine ⟨source, hreach, ?_⟩
    rw [hnext, hd]
    simp [ignored, Setup.leftOver]

end Decoder
end Correlator
