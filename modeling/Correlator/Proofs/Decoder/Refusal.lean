import Correlator.Proofs.Decoder.Consumed

/-!
# How decoding a slice fails

The bytes or the stream may be at fault, which `DecodeError.isRunError` tells apart from all
other failures; or a visibility is refused, and then decoding has come to that visibility.
`slice_eq_error` says so of every failure, and `slice_of_comesTo` is the other direction.
-/

namespace Correlator

/-- What may be wrong with a stream of runs: it ends within a record or holds a negative
number, or it fails. -/
def DecodeError.isRunError : DecodeError → Bool
  | .endOfStream .. | .recordCount .. | .levelCount .. | .stream _ => true
  | _ => false

variable {α β : Type}

namespace Parser

/-- Nothing but the bytes can be wrong. -/
def Plain (p : Parser α) : Prop :=
  ∀ {bytes : List UInt8} {reason : DecodeError}, p bytes = .error reason → reason.isRunError = true

theorem plain_pure (a : α) : Plain (pure a) := fun h => absurd h pure_ne_error

theorem plain_bind {p : Parser α} {q : α → Parser β} (hp : p.Plain) (hq : ∀ a, (q a).Plain) :
    Plain (p >>= q) := by
  intro bytes reason h
  rcases bind_eq_error.mp h with h | ⟨a, middle, -, h⟩
  · exact hp h
  · exact hq a h

theorem plain_map (f : α → β) {p : Parser α} (hp : p.Plain) : Plain (f <$> p) := by
  rw [map_eq_pure_bind]
  exact plain_bind hp fun a => plain_pure (f a)

theorem plain_exactly (piece : Piece) (width : Nat) : Plain (exactly piece width) := by
  intro bytes reason h
  unfold exactly at h
  split at h
  · cases h
    rfl
  · cases h

end Parser

theorem Uvw.parser_plain : parser.Plain := Parser.plain_map _ (Parser.plain_exactly _ _)

theorem Occupancy.parser_plain : parser.Plain := by
  refine Parser.plain_bind (Parser.plain_exactly _ _) fun bytes => ?_
  intro rest reason h
  rw [Parser.ofExcept_eq_error] at h
  unfold check at h
  split at h
  · cases h
    rfl
  · cases h

theorem Visibility.parser_plain (channels : Nat) : (parser channels).Plain :=
  Parser.plain_bind (Parser.plain_exactly _ _) fun _ =>
    Parser.plain_bind (Parser.plain_exactly _ _) fun _ => Parser.plain_pure _

theorem Reading.Follows.isRunError {step : Reading α} {p : Parser α} (h : Follows step p)
    (hp : p.Plain) {s s' : Source} {reason : DecodeError} (hstep : step s = .error reason s') :
    reason.isRunError = true := by
  rcases h.parse_of_error hstep with hparse | ⟨why, rfl⟩
  · exact hp hparse
  · rfl

namespace Decoding

variable {p : Parser α} {step : Reading α} {judge : α → Except DecodeError (List Event)}

/-- Of a number of records, `a` is one, it is all there, and so are those before it, none of
which is refused. -/
inductive ComesTo (p : Parser α) (judge : α → Except DecodeError (List Event)) :
    Nat → List UInt8 → α → Prop
  | here {count : Nat} {bytes rest : List UInt8} {a : α} :
    p bytes = .ok (a, rest) → ComesTo p judge (count + 1) bytes a
  | later {count : Nat} {bytes middle : List UInt8} {a b : α} {events : List Event} :
    p bytes = .ok (b, middle) → judge b = .ok events → ComesTo p judge count middle a →
      ComesTo p judge (count + 1) bytes a

theorem ComesTo.exists_parse {count : Nat} {bytes : List UInt8} {a : α}
    (h : ComesTo p judge count bytes a) : ∃ front rest, p front = .ok (a, rest) := by
  induction h with
  | here hparse => exact ⟨_, _, hparse⟩
  | later _ _ _ ih => exact ih

theorem each_eq_error (hstep : Reading.Follows step p) (hp : p.Plain) {count : Nat}
    {tape tape' : Tape} {reason : DecodeError}
    (h : each step judge count tape = .error reason tape') :
    reason.isRunError = true ∨
      ∃ a, ComesTo p judge count tape.source.ahead a ∧ judge a = .error reason := by
  induction count generalizing tape with
  | zero => cases h
  | succ count ih =>
    cases hread : step tape.source with
    | error reason' source =>
      rw [each, bind_of_error (reading_of_error tape hread)] at h
      cases h
      exact .inl (hstep.isRunError hp hread)
    | ok a source =>
      obtain ⟨middle, hparse, -⟩ := hstep.parse_of_ok hread
      cases hjudge : judge a with
      | error reason' =>
        have hrefused : reading (Reading.ofExcept (judge a)) { tape with source }
            = .error reason' { tape with source } := by
          rw [hjudge]
          rfl
        rw [each, bind_of_ok (reading_of_ok tape hread), bind_of_error hrefused] at h
        cases h
        exact .inr ⟨a, .here hparse, hjudge⟩
      | ok events =>
        obtain ⟨tape₁, heach, hreach⟩ := each_succ judge (fun _ => events) hstep count hparse hjudge
        rw [heach] at h
        rcases ih h with hplain | ⟨b, hb, hrefused⟩
        · exact .inl hplain
        · rw [hreach.source.ahead] at hb
          exact .inr ⟨b, .later hparse hjudge hb, hrefused⟩

theorem each_of_comesTo (hstep : Reading.Follows step p) {count : Nat} {bytes : List UInt8}
    {tape : Tape} {a : α} {reason : DecodeError} (h : ComesTo p judge count bytes a)
    (hjudge : judge a = .error reason) (hbytes : tape.source.ahead = bytes) :
    ∃ tape', each step judge count tape = .error reason tape' := by
  induction h generalizing tape with
  | here hparse =>
    subst hbytes
    obtain ⟨source, hread, -⟩ := hstep.ok hparse
    have hrefused : reading (Reading.ofExcept (.error reason : Except _ (List Event)))
        { tape with source } = .error reason { tape with source } := rfl
    rw [← hjudge] at hrefused
    exact ⟨_, by rw [each, bind_of_ok (reading_of_ok tape hread), bind_of_error hrefused]⟩
  | later hparse haccepted _ ih =>
    subst hbytes
    obtain ⟨tape₁, heach, hreach⟩ := each_succ judge (fun _ => _) hstep _ hparse haccepted
    rw [heach]
    exact ih hjudge hreach.source.ahead

end Decoding

namespace Setup

open Decoding

variable {s : Setup} {slice : Int32} {header : RunHeader} {tape tape' : Tape}
  {reason : DecodeError} {v : Visibility}

/-- Decoding the records of a run comes to the visibility `v`. -/
def RunComesTo (s : Setup) (header : RunHeader) (bytes : List UInt8) (v : Visibility) : Prop :=
  ∃ uvws middle occupancies rest,
    Parser.many Uvw.parser header.uvws bytes = .ok (uvws, middle) ∧
    Parser.many Occupancy.parser header.occupancies middle = .ok (occupancies, rest) ∧
    Decoding.ComesTo (Visibility.parser s.channels) (s.judgeVisibility header.slice)
      header.visibilities rest v

/-- Decoding a slice comes to the visibility `v`: it lies in one of its runs, and the runs
before that one are complete and go through. -/
inductive ComesTo (s : Setup) (slice : Int32) : List UInt8 → Visibility → Prop
  | here {bytes : List UInt8} {header : RunHeader} {v : Visibility} :
    Stored.width RunCounts ≤ bytes.length →
    RunHeader.ofBytes (bytes.take (Stored.width RunCounts)) = .ok header →
    header.slice = slice → s.RunComesTo header (bytes.drop (Stored.width RunCounts)) v →
      ComesTo s slice bytes v
  | later {bytes middle : List UInt8} {run : Run} {v : Visibility} :
    s.RunAt bytes run middle → run.slice = slice → ComesTo s slice middle v →
      ComesTo s slice bytes v

theorem RunComesTo.length_spectrum {bytes : List UInt8} (h : s.RunComesTo header bytes v) :
    v.spectrum.length = s.channels + 1 := by
  obtain ⟨_, _, _, _, -, -, hcomes⟩ := h
  obtain ⟨front, rest, hparse⟩ := hcomes.exists_parse
  exact Visibility.length_spectrum_of_parse hparse

theorem ComesTo.length_spectrum {bytes : List UInt8} (h : s.ComesTo slice bytes v) :
    v.spectrum.length = s.channels + 1 := by
  induction h with
  | here _ _ _ hrun => exact hrun.length_spectrum
  | later _ _ _ ih => exact ih

/- From the visibility to the failure. -/

theorem records_of_comesTo (tape : Tape) (h : s.RunComesTo header tape.source.ahead v)
    (hjudge : s.judgeVisibility header.slice v = .error reason) :
    ∃ tape', s.records header tape = .error reason tape' := by
  obtain ⟨uvws, middle, occupancies, rest, huvws, hoccupancies, hcomes⟩ := h
  obtain ⟨tape₁, h₁, hreach₁⟩ := each_ok _ _ Uvw.parser_follows huvws
    fun r _ => judgeUvw_eq header.slice r
  rw [← hreach₁.source.ahead] at hoccupancies
  obtain ⟨tape₂, h₂, hreach₂⟩ := each_ok judgeOccupancy (fun o => [.occupancy o])
    Occupancy.parser_follows hoccupancies fun _ _ => rfl
  obtain ⟨tape₃, h₃⟩ := each_of_comesTo (Visibility.parser_follows s.channels) hcomes hjudge
    hreach₂.source.ahead
  exact ⟨tape₃, by rw [records, bind_of_ok h₁, bind_of_ok h₂, h₃]⟩

theorem lookAhead_of_comesTo {bytes : List UInt8} (h : s.ComesTo slice bytes v)
    (hjudge : s.judgeVisibility slice v = .error reason) (hbytes : tape.source.ahead = bytes) :
    ∃ tape', s.lookAhead slice tape = .error reason tape' := by
  induction h generalizing tape with
  | here hwhole hheader hslice hrun =>
    subst hbytes hslice
    obtain ⟨tape₁, hnext, hreach⟩ := nextHeader_of_header tape hwhole hheader
    rw [← hreach.source.ahead] at hrun
    obtain ⟨tape₂, hrecords⟩ := records_of_comesTo tape₁ hrun hjudge
    exact ⟨tape₂, by
      rw [lookAhead, hnext]
      dsimp only
      rw [if_pos rfl, restOfSlice_of_error hrecords]⟩
  | later hrun hslice _ ih =>
    subst hbytes
    obtain ⟨tape₁, hahead, hreach⟩ := lookAhead_of_run hrun hslice
    rw [hahead]
    exact ih hjudge hreach.source.ahead

theorem slice_of_comesTo (h : s.ComesTo slice tape.source.ahead v)
    (hjudge : s.judgeVisibility slice v = .error reason) :
    ∃ tape', s.slice? tape = .error reason tape' := by
  generalize hbytes : tape.source.ahead = bytes at h
  cases h with
  | here hwhole hheader hslice hrun =>
    subst hbytes hslice
    obtain ⟨tape₁, hnext, hreach⟩ := nextHeader_of_header tape hwhole hheader
    rw [← hreach.source.ahead] at hrun
    obtain ⟨tape₂, hrecords⟩ := records_of_comesTo
      { tape₁ with events := tape₁.events.push (.opened _) } hrun hjudge
    exact ⟨tape₂, by
      rw [slice?, hnext]
      dsimp only
      rw [restOfSlice_of_error hrecords]⟩
  | later hrun hslice hlater =>
    subst hbytes
    have hruns := RunsAt.cons hrun hslice (.nil _)
    obtain ⟨tape₁, hreach, hfirst⟩ := slice_of_runs tape (List.cons_ne_nil _ []) hruns
    obtain ⟨tape₂, hfails⟩ := lookAhead_of_comesTo hlater hjudge hreach.source.ahead
    exact ⟨tape₂, by rw [hfirst, hfails]⟩

/- And back. -/

theorem nextHeader_eq_error (h : nextHeader? tape = .error reason tape') :
    reason.isRunError = true := by
  by_cases hshort : tape.source.ahead.length < Stored.width RunCounts
  · rcases nextHeader_of_lt tape hshort with ⟨tape₁, hnext⟩ | ⟨why, tape₁, hnext⟩
    · simp [hnext] at h
    · rw [hnext] at h
      cases h
      rfl
  · obtain ⟨source, -, hnext⟩ := nextHeader_of_le tape (Nat.le_of_not_lt hshort)
    rw [hnext, RunHeader.ofBytes, RunCounts.ofCounts_eq] at h
    cases hnegative : RunCounts.negative? (Stored.decode (tape.source.ahead.take _)) with
    | some flaw =>
      rw [hnegative] at h
      cases h
      rfl
    | none => simp [hnegative] at h

theorem handBack_eq_error (h : handBack tape = .error reason tape') :
    reason.isRunError = true := by
  unfold handBack at h
  split at h
  · cases h
    rfl
  · cases h

theorem records_eq_error (h : s.records header tape = .error reason tape') :
    reason.isRunError = true ∨
      ∃ v, s.RunComesTo header tape.source.ahead v ∧
        s.judgeVisibility header.slice v = .error reason := by
  rcases bind_eq_error.mp h with huvws | ⟨⟨⟩, tape₁, h₁, h⟩
  · rcases each_eq_error Uvw.parser_follows Uvw.parser_plain huvws with hplain | ⟨r, -, hjudge⟩
    · exact .inl hplain
    · rw [judgeUvw_eq] at hjudge
      cases hjudge
  obtain ⟨uvws, middle, huvws, -, hreach₁⟩ := each_eq_ok Uvw.parser_follows h₁
  rcases bind_eq_error.mp h with hoccupancies | ⟨⟨⟩, tape₂, h₂, h₃⟩
  · rcases each_eq_error Occupancy.parser_follows Occupancy.parser_plain hoccupancies with
      hplain | ⟨r, -, hjudge⟩
    · exact .inl hplain
    · cases hjudge
  obtain ⟨occupancies, rest, hoccupancies, -, hreach₂⟩ := each_eq_ok Occupancy.parser_follows h₂
  rcases each_eq_error (Visibility.parser_follows s.channels) (Visibility.parser_plain s.channels)
    h₃ with hplain | ⟨v, hcomes, hjudge⟩
  · exact .inl hplain
  · rw [hreach₁.ahead] at hoccupancies
    rw [hreach₂.ahead] at hcomes
    exact .inr ⟨v, ⟨uvws, middle, occupancies, rest, huvws, hoccupancies, hcomes⟩, hjudge⟩

theorem restOfSlice_eq_error (h : s.restOfSlice header tape = .error reason tape') :
    reason.isRunError = true ∨
      ∃ v, s.judgeVisibility header.slice v = .error reason ∧
        (s.RunComesTo header tape.source.ahead v ∨
          ∃ run middle, Run.parser s.channels header tape.source.ahead = .ok (run, middle) ∧
            s.Accepts run ∧ s.ComesTo header.slice middle v) := by
  fun_induction restOfSlice s header tape with
  | case1 header tape reason₁ tape₁ h₁ =>
    cases h
    rcases records_eq_error h₁ with hplain | ⟨v, hcomes, hjudge⟩
    · exact .inl hplain
    · exact .inr ⟨v, hjudge, .inl hcomes⟩
  | case2 header tape tape₁ h₁ reason₂ tape₂ h₂ =>
    cases h
    exact .inl (nextHeader_eq_error h₂)
  | case3 => cases h
  | case4 header tape tape₁ h₁ next tape₂ h₂ hsame ih =>
    obtain ⟨run, middle, hparse, haccepts, hreach₁⟩ := records_eq_ok h₁
    obtain ⟨hwhole, hheader, hreach₂⟩ := nextHeader_eq_ok h₂
    rw [hreach₁.ahead] at hwhole hheader
    rw [hreach₂.ahead, hreach₁.ahead] at ih
    rcases ih h with hplain | ⟨v, hjudge, hcomes | ⟨run', middle', hparse', haccepts', hlater⟩⟩
    · exact .inl hplain
    · rw [hsame] at hjudge
      exact .inr ⟨v, hjudge, .inr ⟨run, middle, hparse, haccepts,
        .here hwhole hheader hsame hcomes⟩⟩
    · rw [hsame] at hjudge hlater
      have hslice := (Run.slice_samples_of_parse hparse').1.trans hsame
      exact .inr ⟨v, hjudge, .inr ⟨run, middle, hparse, haccepts,
        .later ⟨hwhole, ⟨next, hheader, hparse'⟩, haccepts'⟩ hslice hlater⟩⟩
  | case5 header tape tape₁ h₁ next tape₂ h₂ hother reason₃ tape₃ h₃ =>
    cases h
    exact .inl (handBack_eq_error h₃)
  | case6 => cases h

/-- If a slice fails and nothing is wrong with the bytes or the stream, decoding has come to a
visibility that it refuses. -/
theorem slice_eq_error (h : s.slice? tape = .error reason tape') :
    reason.isRunError = true ∨
      ∃ slice v, s.ComesTo slice tape.source.ahead v ∧
        s.judgeVisibility slice v = .error reason := by
  unfold slice? at h
  split at h
  · rename_i reason₁ tape₁ h₁
    cases h
    exact .inl (nextHeader_eq_error h₁)
  · cases h
  · rename_i header tape₁ h₁
    obtain ⟨hwhole, hheader, hreach⟩ := nextHeader_eq_ok h₁
    split at h
    · rename_i reason₂ tape₂ h₂
      cases h
      have hrest := restOfSlice_eq_error h₂
      dsimp only at hrest
      rw [hreach.ahead] at hrest
      rcases hrest with hplain | ⟨v, hjudge, hcomes | ⟨run, middle, hparse, haccepts, hlater⟩⟩
      · exact .inl hplain
      · exact .inr ⟨header.slice, v, .here hwhole hheader rfl hcomes, hjudge⟩
      · have hslice := (Run.slice_samples_of_parse hparse).1
        exact .inr ⟨header.slice, v,
          .later ⟨hwhole, ⟨header, hheader, hparse⟩, haccepts⟩ hslice hlater, hjudge⟩
    · cases h

end Setup
end Correlator
