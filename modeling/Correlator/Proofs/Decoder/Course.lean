import Correlator.Proofs.Decoder.Answers

/-!
# The course of a decoder

A decoder gives slices, one a call, until a call gives none; from then on it has finished.
The lemmas say what one call leaves as it is, and what follows from that for all calls.
-/

namespace Correlator
namespace Decoder

variable {d : Decoder}

theorem setup_next (d : Decoder) : d.next.decoder.setup = d.setup := by
  unfold next
  split
  · rfl
  · split <;> rfl

theorem stations_next (d : Decoder) : d.next.decoder.stations = d.stations := by
  unfold next
  split
  · rfl
  · split <;> rfl

theorem finished_of_next (h : ∀ number, d.next.result ≠ .ok (some number)) :
    d.next.decoder.finished = true := by
  cases hd : d.finished with
  | true => rw [next_of_finished hd, hd]
  | false =>
    rw [next, if_neg (by simp [hd])] at h ⊢
    split at h
    · exact absurd rfl (h _)
    · rfl
    · rfl

/- Any number of calls. -/

/-- What every step preserves holds after any number of calls. -/
theorem after_invariant {P : Decoder → Prop} (hstep : ∀ d, P d → P d.next.decoder) (h : P d)
    (count : Nat) : P (d.after count) := by
  induction count generalizing d with
  | zero => exact h
  | succ count ih => exact ih (hstep d h)

theorem after_add (d : Decoder) (count more : Nat) :
    d.after (count + more) = (d.after count).after more := by
  induction count generalizing d with
  | zero => rw [Nat.zero_add]; rfl
  | succ count ih =>
    rw [Nat.succ_add]
    exact ih d.next.decoder

theorem after_succ (d : Decoder) (count : Nat) :
    d.after (count + 1) = (d.after count).next.decoder :=
  d.after_add count 1

theorem answer_add (d : Decoder) (count more : Nat) :
    d.answer (count + more) = (d.after count).answer more := by
  rw [answer, after_add]
  rfl

theorem setup_after (d : Decoder) (count : Nat) : (d.after count).setup = d.setup :=
  after_invariant (P := fun e => e.setup = d.setup) (fun e h => e.setup_next.trans h) rfl count

theorem stations_after (d : Decoder) (count : Nat) : (d.after count).stations = d.stations :=
  after_invariant (P := fun e => e.stations = d.stations) (fun e h => e.stations_next.trans h)
    rfl count

theorem answer_eq (d : Decoder) (earlier : Nat) :
    d.answer earlier = (d.after earlier).next.result.map (Option.map fun number =>
      ⟨number, (Tally.empty d.stations).enterAll (d.after earlier).next.events⟩) := by
  have hzero := (d.after earlier).answer_zero
  rwa [stations_after, ← answer_add, Nat.add_zero] at hzero

theorem exists_slice_of_result (d : Decoder) {number : Int32} {earlier : Nat}
    (h : (d.after earlier).next.result = .ok (some number)) :
    ∃ slice, d.answer earlier = .ok (some slice) := by
  rw [answer_eq, h]
  exact ⟨_, rfl⟩

/-- A slice that is handed out has the number that was found and the tally that was filled. -/
theorem found_of_map {found : Except DecodeError (Option Int32)} {tally : Tally} {slice : Slice}
    (h : found.map (Option.map (Slice.mk · tally)) = .ok (some slice)) :
    found = .ok (some slice.number) ∧ slice.tally = tally := by
  rcases found with reason | _ | number
  · cases h
  · cases h
  · rw [← Option.some.inj (Except.ok.inj h)]
    exact ⟨rfl, rfl⟩

theorem result_of_answer {slice : Slice} {earlier : Nat}
    (h : d.answer earlier = .ok (some slice)) :
    (d.after earlier).next.result = .ok (some slice.number) :=
  (found_of_map ((d.answer_eq earlier).symm.trans h)).1

theorem after_of_finished (h : d.finished = true) (count : Nat) : d.after count = d := by
  refine after_invariant (P := fun e => e = d) ?_ rfl count
  rintro e rfl
  rw [next_of_finished h]

/-- A decoder that has not finished has given slices only. -/
theorem exists_slice_of_unfinished {count : Nat} (h : (d.after count).finished = false)
    {earlier : Nat} (hearlier : earlier < count) :
    ∃ slice, d.answer earlier = .ok (some slice) := by
  have hgoes : ¬ ∀ number, (d.after earlier).next.result ≠ .ok (some number) := by
    intro hnone
    have hfinished : (d.after (earlier + 1)).finished = true := by
      rw [after_succ]
      exact finished_of_next hnone
    have hlater := after_of_finished hfinished (count - (earlier + 1))
    rw [← after_add, Nat.add_sub_cancel' hearlier] at hlater
    rw [← hlater, h] at hfinished
    exact absurd hfinished (by simp)
  rcases hresult : (d.after earlier).next.result with reason | _ | number
  · exact absurd (by simp [hresult]) hgoes
  · exact absurd (by simp [hresult]) hgoes
  · exact d.exists_slice_of_result hresult

/-- Sooner or later a call gives no slice, and that is the end. -/
theorem exists_last (d : Decoder) :
    ∃ count, (∀ earlier < count, ∃ slice, d.answer earlier = .ok (some slice)) ∧
      (∀ number, (d.after count).next.result ≠ .ok (some number)) ∧
      ∀ later, count < later → d.answer later = .ok none := by
  induction hleft : d.left using Nat.strongRecOn generalizing d with
  | ind left ih =>
    subst hleft
    by_cases hnext : ∃ number, d.next.result = .ok (some number)
    · obtain ⟨number, hnext⟩ := hnext
      obtain ⟨count, hslices, hlast, hlater⟩ := ih _ (d.left_next_lt hnext) d.next.decoder rfl
      refine ⟨count + 1, fun earlier hearlier => ?_, hlast, fun later hafter => ?_⟩
      · cases earlier with
        | zero => exact d.exists_slice_of_result hnext
        | succ earlier => exact hslices earlier (by omega)
      · cases later with
        | zero => omega
        | succ later => exact hlater later (by omega)
    · have hnone : ∀ number, d.next.result ≠ .ok (some number) :=
        fun number h => hnext ⟨number, h⟩
      refine ⟨0, fun earlier hearlier => by omega, hnone, fun later hlater => ?_⟩
      cases later with
      | zero => omega
      | succ later => exact answer_of_finished (finished_of_next hnone) later

theorem answer_of_finished_after {count : Nat} (h : (d.after count).finished = true)
    {earlier : Nat} (hearlier : count ≤ earlier) : d.answer earlier = .ok none := by
  rw [← Nat.add_sub_cancel' hearlier, answer_add]
  exact answer_of_finished h _

end Decoder
end Correlator
