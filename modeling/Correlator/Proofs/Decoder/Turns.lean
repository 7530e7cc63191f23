import Correlator.Proofs.Decoder.Course

/-!
# One call after another

A caller asks for slices in three ways, mixes them as it likes, and may do anything with the
stream between two calls.  `serve_eq` reduces all three to `Decoder.next`, and an induction
over the turns then says what all the replies together look like: slices, at most one
failure, and nothing from then on.
-/

namespace Correlator

/-- A slice is asked for in a tally of the caller, in a new tally, or as the next of all
slices. -/
inductive Request
  | into (tally : Tally)
  | slice
  | item

/-- What a caller gets, in the form that it has asked for. -/
inductive Reply
  | into (found : Except DecodeError (Option Int32)) (tally : Tally)
  | slice (found : Except DecodeError (Option Slice))
  | item (found : Option (Except DecodeError Slice))

/-- The reply that there is no slice, with the tally of the caller as it was. -/
def Request.nothing : Request → Reply
  | .into tally => .into (.ok none) tally
  | .slice => .slice (.ok none)
  | .item => .item none

/-- What a reply says in whatever form: the number of a slice, that there is none, or a
failure. -/
def Reply.verdict : Reply → Except DecodeError (Option Int32)
  | .into found _ => found
  | .slice found => found.map (Option.map Slice.number)
  | .item none => .ok none
  | .item (some found) => found.map (some ·.number)

/-- What a caller does with the stream, which it may move or read, and how it then asks for a
slice. -/
structure Turn where
  meddle : Source → Source
  request : Request

namespace Decoder

def serve (d : Decoder) : Request → Reply × Decoder
  | .into tally =>
    let (step, tally) := d.nextInto tally
    (.into step.result tally, step.decoder)
  | .slice =>
    let (step, found) := d.nextSlice
    (.slice found, step.decoder)
  | .item =>
    let (step, found) := d.nextItem
    (.item found, step.decoder)

def meddled (d : Decoder) (meddle : Source → Source) : Decoder :=
  { d with source := meddle d.source }

def turn (d : Decoder) (t : Turn) : Reply × Decoder := (d.meddled t.meddle).serve t.request

def through (d : Decoder) : List Turn → Decoder
  | [] => d
  | t :: turns => (d.turn t).2.through turns

def verdicts (d : Decoder) : List Turn → List (Except DecodeError (Option Int32))
  | [] => []
  | t :: turns => (d.turn t).1.verdict :: (d.turn t).2.verdicts turns

/-- Whether a verdict is that there is a slice. -/
def isSlice : Except DecodeError (Option Int32) → Bool
  | .ok (some _) => true
  | _ => false

variable {d : Decoder} {turns : List Turn}

/-- However a slice is asked for, the decoder takes the same step. -/
theorem serve_eq (d : Decoder) (request : Request) :
    (d.serve request).1.verdict = d.next.result ∧ (d.serve request).2 = d.next.decoder := by
  cases request with
  | into tally => exact ⟨rfl, rfl⟩
  | slice =>
    refine ⟨?_, rfl⟩
    show (d.next.result.map _).map _ = d.next.result
    rcases d.next.result with reason | _ | number <;> rfl
  | item =>
    refine ⟨?_, rfl⟩
    show Reply.verdict (.item (itemOf (d.next.result.map _))) = d.next.result
    rcases d.next.result with reason | _ | number <;> rfl

theorem serve_of_finished (h : d.finished = true) (request : Request) :
    d.serve request = (request.nothing, d) := by
  cases request with
  | into tally =>
    show (Reply.into d.next.result (if d.finished then tally else _), d.next.decoder) = _
    rw [if_pos h, next_of_finished h]
    rfl
  | slice =>
    show (Reply.slice (d.next.result.map _), d.next.decoder) = _
    rw [next_of_finished h]
    rfl
  | item =>
    show (Reply.item (itemOf (d.next.result.map _)), d.next.decoder) = _
    rw [next_of_finished h]
    rfl

theorem slices_next (d : Decoder) :
    d.next.decoder.slices = d.slices + if isSlice d.next.result then 1 else 0 := by
  cases hd : d.finished with
  | true =>
    rw [next_of_finished hd]
    rfl
  | false =>
    rw [next, if_neg (by simp [hd])]
    split <;> rfl

theorem finished_of_not_slice (h : isSlice d.next.result = false) :
    d.next.decoder.finished = true := by
  apply finished_of_next
  intro number hnumber
  rw [hnumber] at h
  exact Bool.noConfusion h

/- One turn. -/

theorem turn_eq (d : Decoder) (t : Turn) :
    (d.turn t).1.verdict = (d.meddled t.meddle).next.result ∧
      (d.turn t).2 = (d.meddled t.meddle).next.decoder :=
  (d.meddled t.meddle).serve_eq t.request

theorem turn_of_finished (h : d.finished = true) (t : Turn) :
    d.turn t = (t.request.nothing, d.meddled t.meddle) :=
  serve_of_finished (d := d.meddled t.meddle) h t.request

theorem slices_turn (d : Decoder) (t : Turn) :
    (d.turn t).2.slices = d.slices + if isSlice (d.turn t).1.verdict then 1 else 0 := by
  obtain ⟨hverdict, hdecoder⟩ := d.turn_eq t
  rw [hverdict, hdecoder]
  exact (d.meddled t.meddle).slices_next

theorem finished_of_turn {t : Turn} (h : isSlice (d.turn t).1.verdict = false) :
    (d.turn t).2.finished = true := by
  obtain ⟨hverdict, hdecoder⟩ := d.turn_eq t
  rw [hverdict] at h
  rw [hdecoder]
  exact finished_of_not_slice h

theorem verdict_nothing (request : Request) : request.nothing.verdict = .ok none := by
  cases request <;> rfl

/- Any number of turns. -/

theorem through_of_finished (h : d.finished = true) (turns : List Turn) :
    (d.through turns).finished = true ∧
      d.verdicts turns = List.replicate turns.length (.ok none) := by
  induction turns generalizing d with
  | nil => exact ⟨h, rfl⟩
  | cons t turns ih =>
    rw [through, verdicts, turn_of_finished h]
    obtain ⟨hfinished, hverdicts⟩ := ih (d := d.meddled t.meddle) h
    exact ⟨hfinished, by rw [verdict_nothing, hverdicts]; rfl⟩

theorem slices_through (d : Decoder) (turns : List Turn) :
    (d.through turns).slices = d.slices + (d.verdicts turns).countP isSlice := by
  induction turns generalizing d with
  | nil => rfl
  | cons t turns ih =>
    rw [through, verdicts, ih, slices_turn, List.countP_cons]
    omega

theorem finished_through (h : ∃ verdict ∈ d.verdicts turns, isSlice verdict = false) :
    (d.through turns).finished = true := by
  induction turns generalizing d with
  | nil =>
    obtain ⟨verdict, hmem, -⟩ := h
    cases hmem
  | cons t turns ih =>
    obtain ⟨verdict, hmem, hverdict⟩ := h
    rw [through]
    rcases List.mem_cons.mp hmem with rfl | hlater
    · exact (through_of_finished (finished_of_turn hverdict) turns).1
    · exact ih ⟨verdict, hlater, hverdict⟩

/-- Slices, then at most one failure, then nothing. -/
structure Ending (verdicts : List (Except DecodeError (Option Int32))) (numbers : List Int32)
    (failure : List DecodeError) (later : Nat) : Prop where
  verdicts : verdicts =
    numbers.map (.ok ∘ some) ++ failure.map .error ++ List.replicate later (.ok none)
  failure : failure.length ≤ 1

theorem exists_ending (d : Decoder) (turns : List Turn) :
    ∃ numbers failure later, Ending (d.verdicts turns) numbers failure later := by
  induction turns generalizing d with
  | nil => exact ⟨[], [], 0, rfl, Nat.zero_le 1⟩
  | cons t turns ih =>
    rw [verdicts]
    cases hslice : isSlice (d.turn t).1.verdict with
    | true =>
      obtain ⟨numbers, failure, later, hverdicts, hfailure⟩ := ih (d.turn t).2
      rw [hverdicts]
      rcases hverdict : (d.turn t).1.verdict with reason | _ | number
      · simp [hverdict, isSlice] at hslice
      · simp [hverdict, isSlice] at hslice
      · exact ⟨number :: numbers, failure, later, rfl, hfailure⟩
    | false =>
      rw [(through_of_finished (finished_of_turn hslice) turns).2]
      rcases hverdict : (d.turn t).1.verdict with reason | _ | number
      · exact ⟨[], [reason], turns.length, rfl, Nat.le_refl 1⟩
      · exact ⟨[], [], turns.length + 1, rfl, Nat.zero_le 1⟩
      · simp [hverdict, isSlice] at hslice

/-- Whatever calls there are and whatever happens to the stream between them: the replies are
slices, at most one failure, and nothing from then on, and the slices have been counted.  Once
a call has given no slice, a further one leaves the decoder, its stream and the tally of the
caller alone. -/
theorem replies_end (header : Header) (settings : Settings) (source : Source)
    (transform : Transform) (turns : List Turn) (last : Turn) :
    let d := start header settings source transform
    let met := (d.through turns).meddled last.meddle
    (∃ numbers failure later, Ending (d.verdicts turns) numbers failure later) ∧
    (d.through turns).slices = (d.verdicts turns).countP isSlice ∧
    ((∃ verdict ∈ d.verdicts turns, isSlice verdict = false) →
      met.serve last.request = (last.request.nothing, met)) ∧
    (isSlice (met.serve last.request).1.verdict = false →
      (met.serve last.request).2.slices = met.slices) := by
  intro d met
  refine ⟨d.exists_ending turns, ?_, fun hearlier => ?_, fun hnone => ?_⟩
  · rw [slices_through]
    exact Nat.zero_add _
  · exact serve_of_finished (d := met) (finished_through hearlier) last.request
  · obtain ⟨hverdict, hdecoder⟩ := met.serve_eq last.request
    rw [hverdict] at hnone
    rw [hdecoder, slices_next, hnone]
    rfl

/-- The one slice of a stream is found, and then there is none.  The caller goes back to the
beginning: still there is none, and its own tally is left as it was. -/
theorem replies_end_of_rewound :
    let header : Header :=
      ⟨64, "N24L1", 2024, 1, 0, 1, 1000000, 1, 1000, .parallel, .plain⟩
    let run : Run := ⟨5, [], [], []⟩
    let d := start header {} (.ofBytes run.encode)
    let turns : List Turn := [⟨id, .slice⟩, ⟨id, .item⟩]
    let rewind : Source → Source := fun source => { source with pos := 0 }
    let kept : Tally := { skipped := [⟨⟨1, 2⟩, ⟨0, 0, 0⟩⟩] }
    let met := (d.through turns).meddled rewind
    d.verdicts turns = [.ok (some 5), .ok none] ∧ met.slices = 1 ∧
      met.serve (.into kept) = (.into (.ok none) kept, met) := by
  intro header run d turns rewind kept met
  have hbytes : Transcript.ofBytes 1 d.source.ahead = ⟨[run], .clean 0⟩ := by
    decide +kernel
  have hready : d.Ready (Transcript.ofBytes 1 d.source.ahead) :=
    ready_ofBytes rfl (by decide) rfl rfl
  rw [hbytes] at hready
  have hslice : ∀ r ∈ [run], r.slice = 5 := by simp [run]
  obtain ⟨source, hnext⟩ := hready.next_of_last (List.cons_ne_nil _ []) hslice
  obtain ⟨hverdict, hdecoder⟩ := d.turn_eq ⟨id, .slice⟩
  have hfinished : (d.turn ⟨id, .slice⟩).2.finished = true := by
    rw [hdecoder]
    exact congrArg (·.decoder.finished) hnext
  have hverdicts : d.verdicts turns = [.ok (some 5), .ok none] := by
    show (d.turn ⟨id, .slice⟩).1.verdict :: (d.turn ⟨id, .slice⟩).2.verdicts [⟨id, .item⟩] = _
    rw [(through_of_finished hfinished _).2, hverdict]
    exact congrArg (fun step => [step.result, .ok none]) hnext
  obtain ⟨-, hslices, hnothing, -⟩ :=
    replies_end header {} (.ofBytes run.encode) .inverse turns ⟨rewind, .into kept⟩
  have hnone : ∃ verdict ∈ d.verdicts turns, isSlice verdict = false :=
    ⟨.ok none, by rw [hverdicts]; exact List.mem_cons_of_mem _ List.mem_cons_self, rfl⟩
  refine ⟨hverdicts, ?_, hnothing hnone⟩
  rw [hverdicts] at hslices
  exact hslices

end Decoder
end Correlator
