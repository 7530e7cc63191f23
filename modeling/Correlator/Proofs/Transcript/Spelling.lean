import Correlator.Proofs.Transcript.Parser

/-!
# Bytes that spell a value

`Spells p a bytes pieces` says that `p` takes the value `a` off the front of `bytes`,
whatever follows them, and that it fails on the first piece that does not fit when
`bytes` are cut short.  Both halves compose, so that what is written reads back and
what is cut off is reported, by one set of laws.
-/

namespace Correlator

abbrev Pieces := List (Piece × Nat)

/-- A piece that does not fit into the bytes that are left. -/
structure Crossing where
  piece : Piece
  width : Nat
  /-- The bytes of the piece that are there. -/
  found : Nat
deriving DecidableEq

def Crossing.error (c : Crossing) : DecodeError := .endOfStream c.piece c.width c.found

namespace Pieces

def width : Pieces → Nat
  | [] => 0
  | (_, w) :: pieces => w + width pieces

/-- The first piece that reaches past `left` bytes. -/
def crossing? : Pieces → Nat → Option Crossing
  | [], _ => none
  | (piece, width) :: pieces, left =>
    if left < width then some ⟨piece, width, left⟩ else crossing? pieces (left - width)

@[simp] theorem width_nil : width [] = 0 := rfl

@[simp] theorem width_cons (piece : Piece) (w : Nat) (pieces : Pieces) :
    width ((piece, w) :: pieces) = w + pieces.width := rfl

@[simp] theorem width_append (pieces pieces' : Pieces) :
    width (pieces ++ pieces') = pieces.width + pieces'.width := by
  induction pieces with
  | nil => simp
  | cons head pieces ih => rw [List.cons_append, width_cons, width_cons, ih, Nat.add_assoc]

theorem found_lt_of_crossing {pieces : Pieces} {left : Nat} {c : Crossing}
    (h : pieces.crossing? left = some c) : c.found < c.width := by
  induction pieces generalizing left with
  | nil => simp [crossing?] at h
  | cons head pieces ih =>
    rw [crossing?] at h
    split at h
    · simp only [Option.some.injEq] at h
      subst h
      assumption
    · exact ih h

theorem crossing?_append_of_lt {pieces : Pieces} (pieces' : Pieces) {left : Nat}
    (h : left < pieces.width) :
    crossing? (pieces ++ pieces') left = crossing? pieces left := by
  induction pieces generalizing left with
  | nil => simp at h
  | cons head pieces ih =>
    rw [width_cons] at h
    simp only [List.cons_append, crossing?]
    split
    · rfl
    · exact ih (by omega)

theorem crossing?_append_of_le {pieces : Pieces} (pieces' : Pieces) {left : Nat}
    (h : pieces.width ≤ left) :
    crossing? (pieces ++ pieces') left = crossing? pieces' (left - pieces.width) := by
  induction pieces generalizing left with
  | nil => simp
  | cons head pieces ih =>
    rw [width_cons] at h
    simp only [List.cons_append, crossing?]
    rw [if_neg (by omega), ih (by omega), width_cons, Nat.sub_sub]

end Pieces

namespace Parser

variable {α β : Type}

/-- `bytes` are the form of `a` that `p` reads, piece by piece. -/
structure Spells (p : Parser α) (a : α) (bytes : List UInt8) (pieces : Pieces) : Prop where
  width : bytes.length = pieces.width
  parse : ∀ rest, p (bytes ++ rest) = .ok (a, rest)
  cut : ∀ left, left < bytes.length →
    ∃ c, pieces.crossing? left = some c ∧ p (bytes.take left) = .error c.error

theorem spells_pure (a : α) : Spells (pure a) a [] [] where
  width := rfl
  parse _ := rfl
  cut left h := by simp at h

theorem spells_ofExcept {outcome : Except DecodeError α} {a : α} (h : outcome = .ok a) :
    Spells (ofExcept outcome) a [] [] where
  width := rfl
  parse rest := ofExcept_eq_ok.mpr ⟨h, rfl⟩
  cut left h := by simp at h

theorem spells_exactly (piece : Piece) {width : Nat} {bytes : List UInt8}
    (h : bytes.length = width) :
    Spells (exactly piece width) bytes bytes [(piece, width)] where
  width := by simpa using h
  parse rest := by
    unfold exactly
    rw [if_neg (by rw [List.length_append]; omega), List.take_left' h, List.drop_left' h]
  cut left hleft := by
    have hlength : (bytes.take left).length = left := by
      rw [List.length_take]
      omega
    refine ⟨⟨piece, width, left⟩, ?_, ?_⟩
    · rw [Pieces.crossing?, if_pos (by omega)]
    · unfold exactly
      rw [hlength, if_pos (by omega)]
      rfl

theorem spells_bind {p : Parser α} {q : α → Parser β} {a : α} {b : β}
    {bytes bytes' : List UInt8} {pieces pieces' : Pieces} (hp : Spells p a bytes pieces)
    (hq : Spells (q a) b bytes' pieces') :
    Spells (p >>= q) b (bytes ++ bytes') (pieces ++ pieces') where
  width := by rw [List.length_append, hp.width, hq.width, Pieces.width_append]
  parse rest := by rw [List.append_assoc, bind_of_ok (hp.parse _), hq.parse]
  cut left hleft := by
    rw [List.length_append] at hleft
    by_cases h : left < bytes.length
    · obtain ⟨c, hcrossing, hcut⟩ := hp.cut left h
      refine ⟨c, ?_, ?_⟩
      · rw [Pieces.crossing?_append_of_lt _ (by rw [← hp.width]; exact h), hcrossing]
      · rw [List.take_append_of_le_length (by omega), bind_of_error hcut]
    · obtain ⟨c, hcrossing, hcut⟩ := hq.cut (left - bytes.length) (by omega)
      refine ⟨c, ?_, ?_⟩
      · rw [Pieces.crossing?_append_of_le _ (by rw [← hp.width]; omega), ← hp.width, hcrossing]
      · rw [List.take_append, List.take_of_length_le (by omega), bind_of_ok (hp.parse _), hcut]

theorem spells_map (f : α → β) {p : Parser α} {a : α} {bytes : List UInt8} {pieces : Pieces}
    (h : Spells p a bytes pieces) : Spells (f <$> p) (f a) bytes pieces := by
  have hbind := spells_bind (q := fun a => pure (f a)) h (spells_pure (f a))
  rwa [← map_eq_pure_bind, List.append_nil, List.append_nil] at hbind

theorem spells_many {p : Parser α} (encode : α → List UInt8) (pieces : α → Pieces) (as : List α)
    (h : ∀ a ∈ as, Spells p a (encode a) (pieces a)) :
    Spells (many p as.length) as (as.flatMap encode) (as.flatMap pieces) := by
  induction as with
  | nil => exact spells_pure []
  | cons a as ih =>
    have hothers := ih fun b hb => h b (List.mem_cons_of_mem a hb)
    exact spells_bind (h a List.mem_cons_self) (spells_map (a :: ·) hothers)

/-- What is left is the end of what there was. -/
def Trims (p : Parser α) : Prop :=
  ∀ {bytes : List UInt8} {a : α} {rest : List UInt8}, p bytes = .ok (a, rest) → rest <:+ bytes

theorem trims_ofExcept (outcome : Except DecodeError α) : Trims (ofExcept outcome) := by
  intro bytes a rest h
  obtain ⟨-, rfl⟩ := ofExcept_eq_ok.mp h
  exact List.suffix_refl _

theorem trims_pure (a : α) : Trims (pure a) := by
  intro bytes b rest h
  obtain ⟨-, rfl⟩ := pure_eq_ok.mp h
  exact List.suffix_refl _

theorem trims_exactly (piece : Piece) (width : Nat) : Trims (exactly piece width) := by
  intro bytes a rest h
  unfold exactly at h
  split at h
  · simp at h
  · simp only [Except.ok.injEq, Prod.mk.injEq] at h
    obtain ⟨-, rfl⟩ := h
    exact List.drop_suffix _ _

theorem trims_bind {p : Parser α} {q : α → Parser β} (hp : Trims p) (hq : ∀ a, Trims (q a)) :
    Trims (p >>= q) := by
  intro bytes b rest h
  obtain ⟨a, middle, h₁, h₂⟩ := bind_eq_ok.mp h
  exact (hq a h₂).trans (hp h₁)

theorem trims_map (f : α → β) {p : Parser α} (h : Trims p) : Trims (f <$> p) := by
  rw [map_eq_pure_bind]
  exact trims_bind h fun a => trims_pure (f a)

theorem trims_many {p : Parser α} (h : Trims p) (count : Nat) : Trims (many p count) := by
  induction count with
  | zero => exact trims_pure []
  | succ count ih => exact trims_bind h fun a => trims_map _ ih

end Parser
end Correlator
