import Correlator.Proofs.Double.Rounding

/-!
# The order of doubles

Every double but NaN has a place on one line, `place`, and `<` compares the places.  NaN is
below nothing and above nothing.  A magnitude that is not NaN lies above minus infinity.
-/

namespace Correlator
namespace Double

open Float.Model (UnpackedFloat)
open Float.Model.UnpackedFloat

/-- Where a double stands: by its sign and whether it is infinite, then by exponent, then by
mantissa.  The last two count downwards for what is negative. -/
def placeOf : UnpackedFloat → Lex (Int × Lex (Int × Int))
  | .infinity .negative => toLex (-2, toLex (0, 0))
  | .finite .negative m e _ => toLex (-1, toLex (-e, -m))
  | .zero _ | .notANumber => toLex (0, toLex (0, 0))
  | .finite .positive m e _ => toLex (1, toLex (e, m))
  | .infinity .positive => toLex (2, toLex (0, 0))

theorem compare_then_eq_lt {m m' : Nat} {e e' : Int} :
    (compare e e').then (compare m m') = .lt ↔ e < e' ∨ e = e' ∧ m < m' := by
  rw [Ordering.then_eq_lt, Int.compare_eq_lt, Int.compare_eq_eq, Nat.compare_eq_lt]

theorem compare_then_eq_gt {m m' : Nat} {e e' : Int} :
    (compare e e').then (compare m m') = .gt ↔ e' < e ∨ e = e' ∧ m' < m := by
  rw [Ordering.then_eq_gt, Int.compare_eq_gt, Int.compare_eq_eq, Nat.compare_eq_gt]

theorem lt_iff_placeOf {f g : UnpackedFloat} (hf : f.isNaN = false) (hg : g.isNaN = false) :
    f.lt g = true ↔ placeOf f < placeOf g := by
  rw [UnpackedFloat.lt, beq_iff_eq]
  cases f with
  | notANumber => cases hf
  | infinity s =>
    cases g with
    | notANumber => cases hg
    | zero s' => cases s <;> simp [UnpackedFloat.compare, placeOf, Prod.Lex.toLex_lt_toLex]
    | infinity s' | finite s' =>
      cases s <;> cases s' <;>
        simp [UnpackedFloat.compare, placeOf, Prod.Lex.toLex_lt_toLex, compare]
  | zero s =>
    cases g with
    | notANumber => cases hg
    | zero s' => simp [UnpackedFloat.compare, placeOf]
    | infinity s' | finite s' =>
      cases s' <;> simp [UnpackedFloat.compare, placeOf, Prod.Lex.toLex_lt_toLex]
  | finite s m e hpos =>
    cases g with
    | notANumber => cases hg
    | zero s' => cases s <;> simp [UnpackedFloat.compare, placeOf, Prod.Lex.toLex_lt_toLex]
    | infinity s' =>
      cases s <;> cases s' <;> simp [UnpackedFloat.compare, placeOf, Prod.Lex.toLex_lt_toLex]
    | finite s' m' e' hpos' =>
      cases s <;> cases s' <;>
        simp [UnpackedFloat.compare, placeOf, Prod.Lex.toLex_lt_toLex, Ordering.swap_eq_lt,
          compare_then_eq_lt, compare_then_eq_gt]

theorem compare_notANumber (f : UnpackedFloat) : f.compare .notANumber = none := by
  cases f <;> rfl

theorem notANumber_of_isNaN {f : UnpackedFloat} (h : f.isNaN = true) : f = .notANumber := by
  cases f with
  | notANumber => rfl
  | infinity | zero | finite => cases h

/-- Where a double stands on the line of all doubles. -/
def place (x : Float) : Lex (Int × Lex (Int × Int)) := placeOf x.toModel.unpack

variable {x y z : Float}

theorem lt_iff_lt : x < y ↔ x.toModel.unpack.lt y.toModel.unpack = true := by
  change decide (x.toModel.unpack.lt y.toModel.unpack = true) = true ↔ _
  rw [decide_eq_true_eq]

theorem lt_iff_place :
    x < y ↔ x.isNaN = false ∧ y.isNaN = false ∧ place x < place y := by
  rw [lt_iff_lt]
  constructor
  · intro h
    have hx : x.isNaN = false := by
      refine Bool.eq_false_iff.mpr fun hnan => ?_
      rw [notANumber_of_isNaN hnan] at h
      cases h
    have hy : y.isNaN = false := by
      refine Bool.eq_false_iff.mpr fun hnan => ?_
      rw [notANumber_of_isNaN hnan, UnpackedFloat.lt, compare_notANumber] at h
      cases h
    exact ⟨hx, hy, (lt_iff_placeOf hx hy).mp h⟩
  · rintro ⟨hx, hy, h⟩
    exact (lt_iff_placeOf hx hy).mpr h

theorem pack_abs (f : UnpackedFloat) :
    ∃ exponent mantissa, pack .binary64 f.abs
      = packComponents .binary64 .positive exponent mantissa := by
  cases f with
  | notANumber | infinity | zero => exact ⟨_, _, rfl⟩
  | finite s m e hpos =>
    simp only [UnpackedFloat.abs, UnpackedFloat.pack]
    split
    · exact ⟨_, _, rfl⟩
    split
    · exact ⟨_, _, rfl⟩
    · exact ⟨_, _, rfl⟩

theorem zero_le_unpack_positive (exponent : BitVec 11) (mantissa : BitVec 52) :
    0 ≤ (ofLex (placeOf (unpack .binary64
      (packComponents .binary64 .positive exponent mantissa)))).1 := by
  rw [UnpackedFloat.unpack]
  simp only [unpackMantissa_packComponents, unpackExponent_packComponents,
    unpackSign_packComponents, ofBitVec_toBitVec]
  split
  · split <;> simp [placeOf]
  split
  · split <;> simp [placeOf]
  · simp [placeOf]

/-- A magnitude is above minus infinity if it is above anything. -/
theorem minus_infinity_lt_abs (h : x.abs.isNaN = false) : -1 / 0 < x.abs := by
  rw [lt_iff_place]
  refine ⟨by decide, h, ?_⟩
  obtain ⟨exponent, mantissa, hpack⟩ := pack_abs x.toModel.unpack
  have hplace : place x.abs
      = placeOf (unpack .binary64 (packComponents .binary64 .positive exponent mantissa)) := by
    rw [← hpack]
    rfl
  have hleast : place (-1 / 0) = toLex (-2, toLex (0, 0)) := by decide
  have hzero := zero_le_unpack_positive exponent mantissa
  rw [hplace, hleast, Prod.Lex.lt_iff]
  exact .inl (lt_of_lt_of_le (by decide : (-2 : Int) < 0) hzero)

end Double
end Correlator
