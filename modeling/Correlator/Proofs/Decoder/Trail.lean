import Correlator.Proofs.Decoder.Answers

/-!
# What happens on the way to the end

`Decoder.trail` is what happens in all steps of a decoder together.  On a stream that
ends cleanly these are the events of the slices, one slice after another, and then the
bytes that are left over, if there are any.
-/

namespace Correlator

namespace Decoder

/-- Everything that happens until there is nothing more to decode. -/
def trail (d : Decoder) : List Event := d.steps.flatMap Step.events

def log (d : Decoder) : List LogLine := d.trail.filterMap Event.line?

end Decoder

namespace Decoder

variable {d : Decoder}

theorem steps_of_some {number : Int32} (h : d.next.result = .ok (some number)) :
    d.steps = d.next :: d.next.decoder.steps := by
  rw [steps]
  split
  · rfl
  · rename_i hother
    exact absurd h (hother number)

theorem steps_of_none (h : d.next.result = .ok none) : d.steps = [d.next] := by
  rw [steps]
  split
  · rename_i hsome
    rw [h] at hsome
    simp at hsome
  · rfl

theorem trail_of_some {number : Int32} (h : d.next.result = .ok (some number)) :
    d.trail = d.next.events ++ d.next.decoder.trail := by
  rw [trail, steps_of_some h, List.flatMap_cons, trail]

theorem trail_of_none (h : d.next.result = .ok none) : d.trail = d.next.events := by
  rw [trail, steps_of_none h, List.flatMap_singleton]

theorem trail_of_finished (h : d.finished = true) : d.trail = [] := by
  have hnext := next_of_finished h
  rw [trail_of_none (by rw [hnext]), hnext]

theorem trail_of_ready {runs : List Run} {left : Nat} (h : d.Ready ⟨runs, .clean left⟩) :
    d.trail = (blocks runs).flatMap d.setup.sliceEvents ++ Setup.leftOver left := by
  induction runs using blocks_induction generalizing d with
  | nil =>
    obtain ⟨source, hnext⟩ := h.next_of_nil
    rw [trail_of_none (by rw [hnext]), hnext]
    rfl
  | @append slice block others hne hblock hothers ih =>
    rw [blocks_append hne hblock hothers, List.flatMap_cons]
    cases others with
    | nil =>
      rw [List.append_nil] at h
      obtain ⟨source, hstep⟩ := h.next_of_last hne hblock
      rw [trail_of_some (by rw [hstep]), hstep, trail_of_finished rfl, List.append_nil]
      simp [blocks]
    | cons other others =>
      obtain ⟨source, hstep, hready⟩ := h.next_of_other hne hblock rfl (hothers other (by simp))
      rw [trail_of_some (by rw [hstep]), hstep, ih hready, List.append_assoc]

end Decoder
end Correlator
