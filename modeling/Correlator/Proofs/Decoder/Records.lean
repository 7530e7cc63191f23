import Correlator.Proofs.Decoder.Filing
import Correlator.Proofs.Transcript.Records

/-!
# Decoding the records of a run

`records_ok` and `records_error` say that the records of a run are decoded as
`Run.parser` takes them off the bytes ahead, and which events that makes.
-/

namespace Correlator

namespace Decoding

variable {α : Type}

theorem reading_of_ok {step : Reading α} (tape : Tape) {source : Source} {a : α}
    (h : step tape.source = .ok a source) : reading step tape = .ok a { tape with source } := by
  unfold reading
  rw [h]

theorem reading_of_error {step : Reading α} (tape : Tape) {source : Source}
    {reason : DecodeError} (h : step tape.source = .error reason source) :
    reading step tape = .error reason { tape with source } := by
  unfold reading
  rw [h]

end Decoding

namespace Tape

/-- `tape'` is `tape` further on, with `rest` ahead of it and `events` added. -/
structure Reaches (tape : Tape) (rest : List UInt8) (events : List Event) (tape' : Tape) :
    Prop where
  source : tape.source.Reaches rest tape'.source
  events : tape'.events.toList = tape.events.toList ++ events

namespace Reaches

variable {tape tape' tape'' : Tape} {rest rest' : List UInt8} {events events' : List Event}

theorem refl (tape : Tape) : tape.Reaches tape.source.ahead [] tape :=
  ⟨Source.Reaches.refl _, by rw [List.append_nil]⟩

theorem trans (h : tape.Reaches rest events tape') (h' : tape'.Reaches rest' events' tape'') :
    tape.Reaches rest' (events ++ events') tape'' where
  source := h.source.trans h'.source
  events := by rw [h'.events, h.events, List.append_assoc]

end Reaches
end Tape

namespace Decoding

variable {α : Type} {step : Reading α} {p : Parser α}
  (judge : α → Except DecodeError (List Event)) (eventsOf : α → List Event)

/-- One record: it is read, judged and noted, and the others follow. -/
theorem each_succ (hstep : Reading.Follows step p) (count : Nat) {tape : Tape} {a : α}
    {middle : List UInt8} (hp : p tape.source.ahead = .ok (a, middle))
    (hjudge : judge a = .ok (eventsOf a)) :
    ∃ tape', each step judge (count + 1) tape = each step judge count tape' ∧
      tape.Reaches middle (eventsOf a) tape' := by
  obtain ⟨source, hs, hreach⟩ := hstep.ok hp
  refine ⟨{ source, events := tape.events ++ (eventsOf a).toArray }, ?_, hreach, by simp⟩
  have hread := reading_of_ok tape hs
  have hofExcept : reading (Reading.ofExcept (judge a)) { tape with source }
      = .ok (eventsOf a) { tape with source } := by
    rw [hjudge]
    rfl
  rw [each, bind_of_ok hread, bind_of_ok hofExcept]
  rfl

theorem each_ok (hstep : Reading.Follows step p) {count : Nat} {tape : Tape} {as : List α}
    {rest : List UInt8} (hp : Parser.many p count tape.source.ahead = .ok (as, rest))
    (hjudge : ∀ a ∈ as, judge a = .ok (eventsOf a)) :
    ∃ tape', each step judge count tape = .ok () tape' ∧
      tape.Reaches rest (as.flatMap eventsOf) tape' := by
  induction count generalizing tape as with
  | zero =>
    obtain ⟨rfl, rfl⟩ := Parser.pure_eq_ok.mp hp
    exact ⟨tape, rfl, Tape.Reaches.refl tape⟩
  | succ count ih =>
    obtain ⟨a, middle, ha, hp⟩ := Parser.bind_eq_ok.mp hp
    rw [map_eq_pure_bind] at hp
    obtain ⟨others, last, hothers, hp⟩ := Parser.bind_eq_ok.mp hp
    obtain ⟨rfl, rfl⟩ := Parser.pure_eq_ok.mp hp
    obtain ⟨tape₁, heach, hreach₁⟩ :=
      each_succ judge eventsOf hstep count ha (hjudge a List.mem_cons_self)
    rw [← hreach₁.source.ahead] at hothers
    obtain ⟨tape₂, hrest, hreach₂⟩ :=
      ih hothers fun b hb => hjudge b (List.mem_cons_of_mem a hb)
    exact ⟨tape₂, by rw [heach, hrest], hreach₁.trans hreach₂⟩

theorem each_error (hstep : Reading.Follows step p) {count : Nat} {tape : Tape}
    {reason : DecodeError} (hp : Parser.many p count tape.source.ahead = .error reason)
    (hfault : tape.source.readFault = none)
    (hjudge : ∀ {bytes a rest}, p bytes = .ok (a, rest) → judge a = .ok (eventsOf a)) :
    ∃ tape', each step judge count tape = .error reason tape' := by
  induction count generalizing tape with
  | zero => exact absurd hp Parser.pure_ne_error
  | succ count ih =>
    rcases Parser.bind_eq_error.mp hp with ha | ⟨a, middle, ha, hp⟩
    · obtain ⟨source, hs⟩ := hstep.error_of_sound ha hfault
      exact ⟨_, by rw [each, bind_of_error (reading_of_error tape hs)]⟩
    · rw [map_eq_pure_bind] at hp
      rcases Parser.bind_eq_error.mp hp with hothers | ⟨others, last, -, hp⟩
      · obtain ⟨tape₁, heach, hreach⟩ := each_succ judge eventsOf hstep count ha (hjudge ha)
        rw [← hreach.source.ahead] at hothers
        obtain ⟨tape₂, hrest⟩ := ih hothers (hreach.source.readFault.trans hfault)
        exact ⟨tape₂, by rw [heach, hrest]⟩
      · exact absurd hp Parser.pure_ne_error

end Decoding

namespace Setup

open Decoding

variable {s : Setup} {header : RunHeader}

theorem records_ok (tape : Tape) {run : Run} {rest : List UInt8}
    (hp : Run.parser s.channels header tape.source.ahead = .ok (run, rest))
    (haccepts : s.Accepts run) :
    ∃ tape', s.records header tape = .ok () tape' ∧ tape.Reaches rest (s.runEvents run) tape' := by
  obtain ⟨uvws, rest₁, huvws, hp⟩ := Parser.bind_eq_ok.mp hp
  obtain ⟨occupancies, rest₂, hoccupancies, hp⟩ := Parser.bind_eq_ok.mp hp
  obtain ⟨visibilities, rest₃, hvisibilities, hp⟩ := Parser.bind_eq_ok.mp hp
  obtain ⟨rfl, rfl⟩ := Parser.pure_eq_ok.mp hp
  obtain ⟨tape₁, h₁, hreach₁⟩ := each_ok _ _ Uvw.parser_follows huvws
    fun r _ => judgeUvw_eq header.slice r
  rw [← hreach₁.source.ahead] at hoccupancies
  obtain ⟨tape₂, h₂, hreach₂⟩ := each_ok judgeOccupancy (fun o => [.occupancy o])
    Occupancy.parser_follows hoccupancies fun _ _ => rfl
  rw [← hreach₂.source.ahead] at hvisibilities
  obtain ⟨tape₃, h₃, hreach₃⟩ := each_ok _ _ (Visibility.parser_follows s.channels) hvisibilities
    haccepts
  refine ⟨tape₃, ?_, (hreach₁.trans hreach₂).trans hreach₃⟩
  rw [records, bind_of_ok h₁, bind_of_ok h₂, h₃]

theorem records_error (tape : Tape) {reason : DecodeError}
    (hp : Run.parser s.channels header tape.source.ahead = .error reason)
    (hfault : tape.source.readFault = none) (hchannels : 0 < s.channels) :
    ∃ tape', s.records header tape = .error reason tape' := by
  rcases Parser.bind_eq_error.mp hp with huvws | ⟨uvws, rest₁, huvws, hp⟩
  · obtain ⟨tape₁, h₁⟩ := each_error _ _ Uvw.parser_follows huvws hfault
      fun _ => judgeUvw_eq header.slice _
    exact ⟨tape₁, by rw [records, bind_of_error h₁]⟩
  obtain ⟨tape₁, h₁, hreach₁⟩ := each_ok _ _ Uvw.parser_follows huvws
    fun r _ => judgeUvw_eq header.slice r
  have hfault₁ := hreach₁.source.readFault.trans hfault
  rcases Parser.bind_eq_error.mp hp with hoccupancies | ⟨occupancies, rest₂, hoccupancies, hp⟩
  · rw [← hreach₁.source.ahead] at hoccupancies
    obtain ⟨tape₂, h₂⟩ := each_error judgeOccupancy (fun o => [.occupancy o])
      Occupancy.parser_follows hoccupancies hfault₁ fun _ => rfl
    exact ⟨tape₂, by rw [records, bind_of_ok h₁, bind_of_error h₂]⟩
  rw [← hreach₁.source.ahead] at hoccupancies
  obtain ⟨tape₂, h₂, hreach₂⟩ := each_ok judgeOccupancy (fun o => [.occupancy o])
    Occupancy.parser_follows hoccupancies fun _ _ => rfl
  have hfault₂ := hreach₂.source.readFault.trans hfault₁
  rcases Parser.bind_eq_error.mp hp with hvisibilities | ⟨visibilities, rest₃, -, hp⟩
  · rw [← hreach₂.source.ahead] at hvisibilities
    obtain ⟨tape₃, h₃⟩ := each_error _ _ (Visibility.parser_follows s.channels) hvisibilities hfault₂
      fun hv => judgeVisibility_eq header.slice hchannels (Visibility.length_spectrum_of_parse hv)
    exact ⟨tape₃, by rw [records, bind_of_ok h₁, bind_of_ok h₂, h₃]⟩
  · exact absurd hp Parser.pure_ne_error

end Setup
end Correlator
