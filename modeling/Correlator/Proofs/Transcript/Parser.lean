import Correlator.Proofs.Stream.Fill

/-!
# Bytes held in memory

A `Parser` takes a value off the front of some bytes.  It knows nothing of streams: it
has all its bytes before it, and the bytes that it leaves are all that it leaves.
`Follows` says that a step reads from a stream what a parser takes off the bytes ahead.
-/

namespace Correlator

abbrev Parser (α : Type) := StateT (List UInt8) (Except DecodeError) α

namespace Parser

variable {α β : Type}

/-- All of a piece that is `width` bytes wide. -/
def exactly (piece : Piece) (width : Nat) : Parser (List UInt8) := fun bytes =>
  if bytes.length < width then .error (.endOfStream piece width bytes.length)
  else .ok (bytes.take width, bytes.drop width)

def ofExcept (outcome : Except DecodeError α) : Parser α := fun bytes =>
  match outcome with
  | .ok a => .ok (a, bytes)
  | .error reason => .error reason

def many (p : Parser α) : Nat → Parser (List α)
  | 0 => pure []
  | count + 1 => do
    let a ← p
    (a :: ·) <$> many p count

/- What a composed parser does, in terms of its parts. -/

theorem bind_of_ok {p : Parser α} {q : α → Parser β} {bytes middle : List UInt8} {a : α}
    (h : p bytes = .ok (a, middle)) : (p >>= q) bytes = q a middle := by
  show (p bytes >>= fun pair => q pair.1 pair.2) = _
  rw [h]
  rfl

theorem bind_of_error {p : Parser α} {q : α → Parser β} {bytes : List UInt8}
    {reason : DecodeError} (h : p bytes = .error reason) :
    (p >>= q) bytes = .error reason := by
  show (p bytes >>= fun pair => q pair.1 pair.2) = _
  rw [h]
  rfl

theorem bind_eq_ok {p : Parser α} {q : α → Parser β} {bytes rest : List UInt8} {b : β} :
    (p >>= q) bytes = .ok (b, rest) ↔
      ∃ a middle, p bytes = .ok (a, middle) ∧ q a middle = .ok (b, rest) := by
  constructor
  · intro h
    cases hp : p bytes with
    | error reason => simp [bind_of_error hp] at h
    | ok pair => exact ⟨pair.1, pair.2, rfl, by rwa [bind_of_ok hp] at h⟩
  · rintro ⟨a, middle, hp, hq⟩
    rw [bind_of_ok hp, hq]

theorem bind_eq_error {p : Parser α} {q : α → Parser β} {bytes : List UInt8}
    {reason : DecodeError} :
    (p >>= q) bytes = .error reason ↔
      p bytes = .error reason ∨
        ∃ a middle, p bytes = .ok (a, middle) ∧ q a middle = .error reason := by
  constructor
  · intro h
    cases hp : p bytes with
    | error reason' =>
      rw [bind_of_error hp, Except.error.injEq] at h
      exact .inl (by rw [h])
    | ok pair => exact .inr ⟨pair.1, pair.2, rfl, by rwa [bind_of_ok hp] at h⟩
  · rintro (hp | ⟨a, middle, hp, hq⟩)
    · exact bind_of_error hp
    · rw [bind_of_ok hp, hq]

theorem pure_eq_ok {a b : α} {bytes rest : List UInt8} :
    (pure a : Parser α) bytes = .ok (b, rest) ↔ a = b ∧ bytes = rest := by
  show Except.ok (a, bytes) = _ ↔ _
  simp

theorem pure_ne_error {a : α} {bytes : List UInt8} {reason : DecodeError} :
    (pure a : Parser α) bytes ≠ .error reason := by
  show Except.ok (a, bytes) ≠ _
  simp

theorem ofExcept_eq_ok {outcome : Except DecodeError α} {a : α} {bytes rest : List UInt8} :
    ofExcept outcome bytes = .ok (a, rest) ↔ outcome = .ok a ∧ bytes = rest := by
  cases outcome <;> simp [ofExcept]

theorem ofExcept_eq_error {outcome : Except DecodeError α} {reason : DecodeError}
    {bytes : List UInt8} :
    ofExcept outcome bytes = .error reason ↔ outcome = .error reason := by
  cases outcome <;> simp [ofExcept]

end Parser

namespace Reading

variable {α β : Type}

/-- Read from the stream what `p` takes off the bytes ahead.  Where `p` succeeds there
are enough bytes before the stream fails, if it fails at all; where `p` has not enough,
the stream may fail first. -/
structure Follows (step : Reading α) (p : Parser α) : Prop where
  ok : ∀ {s : Source} {a : α} {rest : List UInt8}, p s.ahead = .ok (a, rest) →
    ∃ s', step s = .ok a s' ∧ s.Reaches rest s'
  error : ∀ {s : Source} {reason : DecodeError}, p s.ahead = .error reason →
    (∃ s', step s = .error reason s') ∨
      s.readFault ≠ none ∧ ∃ why s', step s = .error (.stream why) s'

namespace Follows

variable {step : Reading α} {p : Parser α} {s s' : Source} {reason : DecodeError} {a : α}

theorem error_of_sound (h : Follows step p) (hp : p s.ahead = .error reason)
    (hfault : s.readFault = none) : ∃ s', step s = .error reason s' :=
  (h.error hp).resolve_right fun hfails => hfails.1 hfault

/- What a step has given, in terms of the bytes that were ahead. -/

theorem parse_of_ok (h : Follows step p) (hstep : step s = .ok a s') :
    ∃ rest, p s.ahead = .ok (a, rest) ∧ s.Reaches rest s' := by
  cases hp : p s.ahead with
  | error reason => rcases h.error hp with ⟨s₁, hs₁⟩ | ⟨-, why, s₁, hs₁⟩ <;> simp [hstep] at hs₁
  | ok pair =>
    obtain ⟨b, rest⟩ := pair
    obtain ⟨s₁, hs₁, hreach⟩ := h.ok hp
    rw [hstep, EStateM.Result.ok.injEq] at hs₁
    obtain ⟨rfl, rfl⟩ := hs₁
    exact ⟨rest, rfl, hreach⟩

theorem parse_of_error (h : Follows step p) (hstep : step s = .error reason s') :
    p s.ahead = .error reason ∨ ∃ why, reason = .stream why := by
  cases hp : p s.ahead with
  | ok pair =>
    obtain ⟨s₁, hs₁, -⟩ := h.ok hp
    simp [hstep] at hs₁
  | error reason' =>
    rcases h.error hp with ⟨s₁, hs₁⟩ | ⟨-, why, s₁, hs₁⟩ <;>
      rw [hstep, EStateM.Result.error.injEq] at hs₁
    · exact .inl (by rw [hs₁.1])
    · exact .inr ⟨why, hs₁.1⟩

end Follows

theorem follows_pure (a : α) : Follows (pure a) (pure a) where
  ok := by
    intro s b rest h
    obtain ⟨rfl, rfl⟩ := Parser.pure_eq_ok.mp h
    exact ⟨s, rfl, Source.Reaches.refl s⟩
  error := by
    intro s reason h
    exact absurd h Parser.pure_ne_error

theorem follows_ofExcept (outcome : Except DecodeError α) :
    Follows (ofExcept outcome) (Parser.ofExcept outcome) where
  ok := by
    intro s a rest h
    obtain ⟨rfl, rfl⟩ := Parser.ofExcept_eq_ok.mp h
    exact ⟨s, rfl, Source.Reaches.refl s⟩
  error := by
    intro s reason h
    rw [Parser.ofExcept_eq_error] at h
    exact .inl ⟨s, by rw [h]; rfl⟩

theorem follows_bind {step : Reading α} {next : α → Reading β} {p : Parser α}
    {q : α → Parser β} (hstep : Follows step p) (hnext : ∀ a, Follows (next a) (q a)) :
    Follows (step >>= next) (p >>= q) where
  ok := by
    intro s b rest h
    obtain ⟨a, middle, hp, hq⟩ := Parser.bind_eq_ok.mp h
    obtain ⟨s₁, hs₁, hreach₁⟩ := hstep.ok hp
    rw [← hreach₁.ahead] at hq
    obtain ⟨s₂, hs₂, hreach₂⟩ := (hnext a).ok hq
    exact ⟨s₂, by rw [bind_of_ok hs₁, hs₂], hreach₁.trans hreach₂⟩
  error := by
    intro s reason h
    rcases Parser.bind_eq_error.mp h with hp | ⟨a, middle, hp, hq⟩
    · rcases hstep.error hp with ⟨s₁, hs₁⟩ | ⟨hfault, why, s₁, hs₁⟩
      · exact .inl ⟨s₁, bind_of_error hs₁⟩
      · exact .inr ⟨hfault, why, s₁, bind_of_error hs₁⟩
    · obtain ⟨s₁, hs₁, hreach₁⟩ := hstep.ok hp
      rw [← hreach₁.ahead] at hq
      rcases (hnext a).error hq with ⟨s₂, hs₂⟩ | ⟨hfault, why, s₂, hs₂⟩
      · exact .inl ⟨s₂, by rw [bind_of_ok hs₁, hs₂]⟩
      · rw [hreach₁.readFault] at hfault
        exact .inr ⟨hfault, why, s₂, by rw [bind_of_ok hs₁, hs₂]⟩

theorem follows_map (f : α → β) {step : Reading α} {p : Parser α} (h : Follows step p) :
    Follows (f <$> step) (f <$> p) := by
  have hbind := follows_bind h fun a => follows_pure (f a)
  rwa [← map_eq_pure_bind, ← map_eq_pure_bind] at hbind

theorem upTo_of_le {s : Source} {wanted : Nat} (h : wanted ≤ s.ahead.length) :
    ∃ s', upTo wanted s = .ok (s.ahead.take wanted) s' ∧ s.Reaches (s.ahead.drop wanted) s' := by
  obtain ⟨s', hfill, hreach⟩ := s.fill_of_le wanted h
  exact ⟨s', by rw [upTo, hfill], hreach⟩

theorem follows_exactly (piece : Piece) (width : Nat) :
    Follows (exactly piece width) (Parser.exactly piece width) where
  ok := by
    intro s bytes rest h
    unfold Parser.exactly at h
    split at h
    · simp at h
    · rename_i hwidth
      simp only [Except.ok.injEq, Prod.mk.injEq] at h
      obtain ⟨rfl, rfl⟩ := h
      obtain ⟨s', hupTo, hreach⟩ := upTo_of_le (Nat.le_of_not_lt hwidth)
      refine ⟨s', ?_, hreach⟩
      rw [exactly, bind_of_ok hupTo, if_neg (by rw [List.length_take]; omega)]
      rfl
  error := by
    intro s reason h
    unfold Parser.exactly at h
    split at h
    · rename_i hwidth
      simp only [Except.error.injEq] at h
      subst h
      obtain ⟨s', hfill, -⟩ := s.fill_eq width
      rw [Source.supply, if_neg (by omega)] at hfill
      cases hbehind : s.obstacleBehind? with
      | some why =>
        have hupTo : upTo width s = .error (.stream why) s' := by
          rw [upTo, hfill, hbehind]
        refine .inr ⟨fun hnone => ?_, why, s', by rw [exactly, bind_of_error hupTo]⟩
        simp [Source.obstacleBehind?, Source.obstacle?, hnone] at hbehind
      | none =>
        have hupTo : upTo width s = .ok s.ahead s' := by
          rw [upTo, hfill, hbehind]
        refine .inl ⟨s', ?_⟩
        rw [exactly, bind_of_ok hupTo, if_pos hwidth]
        rfl
    · simp at h

end Reading
end Correlator
