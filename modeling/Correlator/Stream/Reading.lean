import Correlator.Error
import Correlator.Stream.Source

/-!
# Steps that read

A `Reading` takes a stream, gives a value or the reason that there is none, and
leaves the stream where it stopped either way.  What does not depend on the kind of
state comes first: the ways in which one step goes on into the next, and relations
between the states before and after a step (`Along`).
-/

namespace Correlator

section Steps

variable {ε σ α β : Type} {rel : σ → σ → Prop} {step : EStateM ε σ α}
  {next : α → EStateM ε σ β} {s s' : σ}

theorem bind_of_ok {a : α} (h : step s = .ok a s') : (step >>= next) s = next a s' := by
  show EStateM.bind step next s = _
  rw [EStateM.bind, h]

theorem bind_of_error {reason : ε} (h : step s = .error reason s') :
    (step >>= next) s = .error reason s' := by
  show EStateM.bind step next s = _
  rw [EStateM.bind, h]

theorem bind_eq_ok {b : β} :
    (step >>= next) s = .ok b s' ↔ ∃ a s₁, step s = .ok a s₁ ∧ next a s₁ = .ok b s' := by
  constructor
  · intro h
    cases hstep : step s with
    | error reason s₁ =>
      rw [bind_of_error hstep] at h
      cases h
    | ok a s₁ => exact ⟨a, s₁, rfl, by rwa [bind_of_ok hstep] at h⟩
  · rintro ⟨a, s₁, hstep, hnext⟩
    rw [bind_of_ok hstep, hnext]

theorem bind_eq_error {reason : ε} :
    (step >>= next) s = .error reason s' ↔
      step s = .error reason s' ∨
        ∃ a s₁, step s = .ok a s₁ ∧ next a s₁ = .error reason s' := by
  constructor
  · intro h
    cases hstep : step s with
    | error reason' s₁ =>
      rw [bind_of_error hstep] at h
      cases h
      exact .inl rfl
    | ok a s₁ => exact .inr ⟨a, s₁, rfl, by rwa [bind_of_ok hstep] at h⟩
  · rintro (hstep | ⟨a, s₁, hstep, hnext⟩)
    · exact bind_of_error hstep
    · rw [bind_of_ok hstep, hnext]

/-- Whether it gives a value or a reason, the step leads to a state that is related to the one
before it. -/
def Along (rel : σ → σ → Prop) (step : EStateM ε σ α) : Prop :=
  ∀ s, match step s with
    | .ok _ s' | .error _ s' => rel s s'

theorem Along.of_ok {a : α} (h : Along rel step) (hstep : step s = .ok a s') : rel s s' := by
  have hrel := h s
  rwa [hstep] at hrel

theorem along_pure (hrefl : ∀ s, rel s s) (a : α) : Along rel (pure a : EStateM ε σ α) :=
  fun s => hrefl s

theorem along_throw (hrefl : ∀ s, rel s s) (reason : ε) :
    Along rel (throw reason : EStateM ε σ α) :=
  fun s => hrefl s

theorem along_bind (htrans : ∀ {s s' s''}, rel s s' → rel s' s'' → rel s s'')
    (hstep : Along rel step) (hnext : ∀ a, Along rel (next a)) : Along rel (step >>= next) := by
  intro s
  have h₁ := hstep s
  cases hs : step s with
  | error reason s₁ =>
    rw [bind_of_error hs]
    rwa [hs] at h₁
  | ok a s₁ =>
    have h₂ := hnext a s₁
    rw [bind_of_ok hs]
    rw [hs] at h₁
    cases hn : next a s₁ with
    | ok b s₂ | error reason s₂ =>
      rw [hn] at h₂
      exact htrans h₁ h₂

theorem along_map (f : α → β) (h : Along rel step) : Along rel (f <$> step) := by
  intro s
  have hs := h s
  show match EStateM.map f step s with
    | .ok _ s' | .error _ s' => _
  unfold EStateM.map
  cases hstep : step s with
  | ok a s₁ | error reason s₁ =>
    rw [hstep] at hs
    exact hs

end Steps

abbrev Reading (α : Type) := EStateM DecodeError Source α

namespace Reading

/-- Up to `wanted` bytes; fewer only at the end of the stream. -/
def upTo (wanted : Nat) : Reading (List UInt8) := fun s =>
  match s.fill wanted with
  | (.ok bytes, s) => .ok bytes s
  | (.error reason, s) => .error (.stream reason) s

/-- All of a piece that is `width` bytes wide. -/
def exactly (piece : Piece) (width : Nat) : Reading (List UInt8) := do
  let bytes ← upTo width
  if bytes.length < width then throw (.endOfStream piece width bytes.length)
  return bytes

/-- A value or a failure that needs no reading. -/
def ofExcept {α : Type} (outcome : Except DecodeError α) : Reading α := fun s =>
  match outcome with
  | .ok a => .ok a s
  | .error reason => .error reason s

/-- A step that leaves the bytes as they are and never goes back. -/
def Forward {α : Type} (step : Reading α) : Prop := Along Source.Onward step

theorem forward_ofExcept {α : Type} (outcome : Except DecodeError α) :
    Forward (ofExcept outcome) := by
  intro s
  cases outcome <;> exact Source.Onward.refl s

theorem forward_upTo (wanted : Nat) : Forward (upTo wanted) := by
  intro s
  have honward := s.onward_fill wanted
  unfold upTo
  split <;> rename_i heq <;> split at heq <;> simp_all

theorem forward_exactly (piece : Piece) (width : Nat) : Forward (exactly piece width) := by
  refine along_bind Source.Onward.trans (forward_upTo width) fun bytes => ?_
  split
  · exact along_throw Source.Onward.refl _
  · exact along_pure Source.Onward.refl _

/-- Move the stream to a position. -/
def seek (pos : Nat) : Reading Unit := fun s =>
  match s.seek pos with
  | (.ok (), s) => .ok () s
  | (.error reason, s) => .error (.stream reason) s

end Reading
end Correlator
