import Correlator.Proofs.Double.Rounding
import Correlator.Decimal.Value

/-!
# Integers as doubles

An integer is taken to the double nearest to it, of two to the one with an even mantissa.
`nearest` is that double as an integer: the integer itself up to `2 ^ 53`, and beyond that it
keeps the order and the sign.  The conversion of machine integers gives it, `value?_ofInt64`,
and halving it loses nothing, `value?_ofInt64_half`.
-/

namespace Correlator
namespace Rounding

/-! ## Nearest multiples -/

variable {n n' d : Nat}

theorem div_le_halfEven : n / d ≤ halfEven n d := by
  simp only [halfEven]
  split <;> omega

theorem halfEven_le : halfEven n d ≤ n / d + 1 := by
  simp only [halfEven]
  split <;> omega

theorem halfEven_mono (h : n ≤ n') : halfEven n d ≤ halfEven n' d := by
  have hdiv : n / d ≤ n' / d := Nat.div_le_div_right h
  rcases Nat.lt_or_eq_of_le hdiv with hless | hsame
  · calc halfEven n d ≤ n / d + 1 := halfEven_le
      _ ≤ n' / d := hless
      _ ≤ halfEven n' d := div_le_halfEven
  · have hrest : n % d ≤ n' % d := by
      have hn := Nat.div_add_mod n d
      have hn' := Nat.div_add_mod n' d
      rw [hsame] at hn
      omega
    simp only [halfEven, hsame]
    split <;> split <;> omega

theorem halfEven_one (n : Nat) : halfEven n 1 = n := by
  rw [halfEven, Nat.div_one, Nat.mod_one]
  rfl

/-! ## Nearest doubles -/

theorem toDouble_of_lt (h : n < 2 ^ 53) : toDouble n = n := if_pos h

theorem toDouble_of_log2 {k : Nat} (hlarge : 2 ^ 52 ≤ n) (h : n.log2 = 52 + k) :
    toDouble n = halfEven n (2 ^ k) * 2 ^ k := by
  have hspacing : n.log2 - 52 = k := by omega
  rw [toDouble, hspacing]
  split
  case isTrue hsmall =>
    have hnone : k = 0 := by
      rw [Double.log2_eq_of_full hlarge hsmall] at h
      omega
    rw [hnone, Nat.pow_zero, halfEven_one, Nat.mul_one]
  case isFalse => rfl

theorem exists_log2 (h : 2 ^ 52 ≤ n) : ∃ k, n.log2 = 52 + k :=
  Nat.exists_eq_add_of_le ((Nat.le_log2 (by omega)).mpr h)

/-- The nearest double lies between the same powers of two. -/
theorem toDouble_bounds (h : 2 ^ 52 ≤ n) :
    2 ^ n.log2 ≤ toDouble n ∧ toDouble n ≤ 2 ^ (n.log2 + 1) := by
  obtain ⟨k, hk⟩ := exists_log2 h
  obtain ⟨hlow, hhigh⟩ := Double.div_full (by omega) hk
  rw [toDouble_of_log2 h hk, hk]
  constructor
  · calc 2 ^ (52 + k) = 2 ^ 52 * 2 ^ k := Nat.pow_add ..
      _ ≤ halfEven n (2 ^ k) * 2 ^ k := Nat.mul_le_mul_right _ (hlow.trans div_le_halfEven)
  · calc halfEven n (2 ^ k) * 2 ^ k ≤ 2 ^ 53 * 2 ^ k :=
          Nat.mul_le_mul_right _ (halfEven_le.trans hhigh)
      _ = 2 ^ (52 + k + 1) := by rw [← Nat.pow_add, Nat.add_right_comm]

theorem toDouble_mono (h : n ≤ n') : toDouble n ≤ toDouble n' := by
  rcases Nat.lt_or_ge n' (2 ^ 52) with hsmall' | hlarge'
  · rwa [toDouble_of_lt (by omega), toDouble_of_lt (by omega)]
  have hbounds' := toDouble_bounds hlarge'
  rcases Nat.lt_or_ge n (2 ^ 52) with hsmall | hlarge
  · have hlog : 52 ≤ n'.log2 := (Nat.le_log2 (by omega)).mpr hlarge'
    calc toDouble n = n := toDouble_of_lt (by omega)
      _ ≤ 2 ^ 52 := hsmall.le
      _ ≤ 2 ^ n'.log2 := Nat.pow_le_pow_right (by decide) hlog
      _ ≤ toDouble n' := hbounds'.1
  have hlog : n.log2 ≤ n'.log2 :=
    (Nat.le_log2 (by omega)).mpr ((Nat.log2_self_le (by omega)).trans h)
  rcases Nat.lt_or_eq_of_le hlog with hless | hsame
  · calc toDouble n ≤ 2 ^ (n.log2 + 1) := (toDouble_bounds hlarge).2
      _ ≤ 2 ^ n'.log2 := Nat.pow_le_pow_right (by decide) hless
      _ ≤ toDouble n' := hbounds'.1
  · obtain ⟨k, hk⟩ := exists_log2 hlarge
    rw [toDouble_of_log2 hlarge hk, toDouble_of_log2 hlarge' (hsame ▸ hk)]
    exact Nat.mul_le_mul_right _ (halfEven_mono h)

theorem toDouble_of_le (h : n ≤ 2 ^ 53) : toDouble n = n := by
  rcases Nat.lt_or_eq_of_le h with hless | rfl
  · exact toDouble_of_lt hless
  · decide

/-- The double nearest to an integer, which is again an integer. -/
def nearest (o : Int) : Int := if o < 0 then -toDouble o.natAbs else toDouble o.natAbs

theorem nearest_neg (o : Int) : nearest (-o) = -nearest o := by
  rcases Int.lt_trichotomy o 0 with hneg | rfl | hpos
  · rw [nearest, nearest, if_neg (by omega), if_pos hneg, Int.natAbs_neg, Int.neg_neg]
  · decide
  · rw [nearest, nearest, if_pos (by omega), if_neg (by omega), Int.natAbs_neg]

theorem nearest_mono {o o' : Int} (h : o ≤ o') : nearest o ≤ nearest o' := by
  rw [nearest, nearest]
  split <;> split
  · have hless : toDouble o'.natAbs ≤ toDouble o.natAbs := toDouble_mono (by omega)
    omega
  · omega
  · omega
  · have hless : toDouble o.natAbs ≤ toDouble o'.natAbs := toDouble_mono (by omega)
    omega

theorem nearest_of_abs_le {o : Int} (h : |o| ≤ 2 ^ 53) : nearest o = o := by
  have hsmall : o.natAbs ≤ 2 ^ 53 := by
    rw [Int.abs_eq_natAbs] at h
    exact_mod_cast h
  rw [nearest, toDouble_of_le hsmall]
  split <;> omega

end Rounding

namespace Double

open Float.Model (UnpackedFloat Format)
open Float.Model.UnpackedFloat

variable {m k : Nat} {em : ExtendedMantissa}

/-! ## The bits that are shifted out -/

/-- What is left of a mantissa when its last `k` bits go, and what the two extra bits tell of
those: whether they are at least a half, and whether they are neither nothing nor a half. -/
structure Cut (m k : Nat) (em : ExtendedMantissa) : Prop where
  mantissa : em.mantissa = m / 2 ^ k
  roundBit : em.roundBit = true ↔ 2 ^ k ≤ 2 * (m % 2 ^ k)
  stickyBit : em.stickyBit = true ↔ 2 * (m % 2 ^ k) ≠ 0 ∧ 2 * (m % 2 ^ k) ≠ 2 ^ k

theorem Cut.shiftRightOne (h : Cut m k em) : Cut m (k + 1) em.shiftRightOne := by
  have hpos : 0 < 2 ^ k := by positivity
  have hrest : m % 2 ^ k < 2 ^ k := Nat.mod_lt _ hpos
  have hmod : m % 2 ^ (k + 1) = m % 2 ^ k + 2 ^ k * (m / 2 ^ k % 2) := by
    rw [Nat.pow_succ, Nat.mod_mul]
  have hpow : 2 ^ (k + 1) = 2 * 2 ^ k := Nat.pow_succ'
  have hbit : m / 2 ^ k % 2 = 0 ∨ m / 2 ^ k % 2 = 1 := by omega
  refine ⟨?_, ?_, ?_⟩
  · rw [ExtendedMantissa.shiftRightOne, h.mantissa, Nat.pow_succ, Nat.div_div_eq_div_mul]
  · rw [ExtendedMantissa.shiftRightOne, h.mantissa, bne_iff_ne, hmod, hpow]
    rcases hbit with hbit | hbit <;> rw [hbit] <;> omega
  · rw [ExtendedMantissa.shiftRightOne, Bool.or_eq_true, h.roundBit, h.stickyBit, hmod, hpow]
    rcases hbit with hbit | hbit <;> rw [hbit] <;> omega

theorem cut_shiftRight (m k : Nat) :
    Cut m k (ExtendedMantissa.ofMantissaAndAccuracy m .exact >>> k) := by
  change Cut m k (Nat.repeat ExtendedMantissa.shiftRightOne k _)
  induction k with
  | zero =>
    rw [Nat.repeat]
    refine ⟨(Nat.div_one m).symm, ?_, ?_⟩ <;> simp [ExtendedMantissa.ofMantissaAndAccuracy,
      Nat.mod_one]
  | succ k ih =>
    rw [Nat.repeat]
    exact ih.shiftRightOne

theorem Cut.roundedMantissa (h : Cut m k em) :
    em.roundedMantissa = Rounding.halfEven m (2 ^ k) := by
  obtain ⟨mantissa, roundBit, stickyBit⟩ := em
  obtain ⟨hmantissa, hround, hsticky⟩ := h
  have hpos : 0 < 2 ^ k := by positivity
  dsimp only at hmantissa hround hsticky
  simp only [Rounding.halfEven, ← hmantissa]
  cases roundBit <;> cases stickyBit <;>
    simp only [ExtendedMantissa.roundedMantissa, ExtendedMantissa.accuracy,
      Accuracy.roundToNearestEven, true_iff, false_iff, Bool.false_eq_true] at hround hsticky ⊢ <;>
    split <;> omega

/-! ## Machine integers as doubles -/

/-- The number that a double is; none for an infinity and for NaN. -/
def valueOf? : UnpackedFloat → Option Rat
  | .zero _ => some 0
  | .finite sign m e _ => some (sign.apply m * 2 ^ e)
  | .infinity _ | .notANumber => none

def value? (x : Float) : Option Rat := valueOf? x.toModel.unpack

/-- The double for a machine integer. -/
def ofInt64 (o : Int64) : Float := .ofModel (.ofInt64 o)

/-- A natural number keeps 53 bits, and its nearest double is what they stand for. -/
theorem round_natCast (sign : Sign) {n : Nat} (hpos : 0 < n) (hn : n < 2 ^ 64) :
    ∃ m e hm, round .binary64 sign n 0 = .finite sign m e hm ∧ 2 ^ 52 ≤ m ∧ m < 2 ^ 53 ∧
      -52 ≤ e ∧ e ≤ 12 ∧ (m : Rat) * 2 ^ e = Rounding.toDouble n := by
  rcases Nat.lt_or_ge n (2 ^ 52) with hsmall | hlarge
  · have hlog : n.log2 < 52 := (Nat.log2_lt hpos.ne').mpr hsmall
    obtain ⟨shift, hshift⟩ : ∃ shift, n.log2 + shift = 52 := ⟨52 - n.log2, by omega⟩
    obtain ⟨hlow, hhigh⟩ := mul_full hpos hshift
    obtain ⟨m, e, hm, hcut, hlow', hhigh', he, he', hvalue⟩ :=
      roundWithAccuracy_cut (k := 0) (e := 0 - shift) sign .exact hlow
        (log2_eq_of_full hlow hhigh) (by omega)
    refine ⟨m, e, hm, (round_eq sign (by omega)).trans hcut, hlow', hhigh', by omega, by omega, ?_⟩
    have hback : (0 : Int) - shift + (0 : Nat) = -(shift : Int) := by omega
    rw [hvalue, (cut_shiftRight _ 0).roundedMantissa, Nat.pow_zero, Rounding.halfEven_one,
      Rounding.toDouble_of_lt (by omega), hback, zpow_neg, zpow_natCast]
    push_cast
    field_simp
  · obtain ⟨k, hk⟩ := Rounding.exists_log2 hlarge
    have hlog : n.log2 < 64 := (Nat.log2_lt hpos.ne').mpr hn
    obtain ⟨m, e, hm, hcut, hlow, hhigh, he, he', hvalue⟩ :=
      roundWithAccuracy_cut sign .exact hlarge hk (by omega : -1074 ≤ 0 + (k : Int))
    have hround : round .binary64 sign n 0 = roundWithAccuracy .binary64 sign n 0 .exact := by
      rw [@round_eq n 0 0 sign (by omega), Nat.pow_zero, Nat.mul_one]
      rfl
    refine ⟨m, e, hm, hround.trans hcut, hlow, hhigh, by omega, by omega, ?_⟩
    rw [hvalue, (cut_shiftRight n k).roundedMantissa, Rounding.toDouble_of_log2 hlarge hk,
      zero_add, zpow_natCast]
    push_cast
    rfl

theorem unpack_two : (2 : Float).toModel.unpack = .finite .positive (2 ^ 52) (-51) (by decide) :=
  rfl

/-- A full mantissa is halved by lowering its exponent. -/
theorem div_two (sign : Sign) {e : Int} (hpos : 0 < m) (hlow : 2 ^ 52 ≤ m) (hhigh : m < 2 ^ 53)
    (he : -900 ≤ e) :
    div .binary64 (.finite sign m e hpos) (.finite .positive (2 ^ 52) (-51) (by decide))
      = .finite sign m (e - 1) hpos := by
  have hquotient : m * 2 ^ 53 / 2 ^ 52 = m * 2 := by omega
  have hrest : m * 2 ^ 53 % 2 ^ 52 = 0 := by omega
  have hexponent : e - -51 - 53 + 1 = e - 1 := by omega
  have hsign : sign / .positive = sign := by cases sign <;> rfl
  have hdiv : div .binary64 (.finite sign m e hpos) (.finite .positive (2 ^ 52) (-51) (by decide))
      = roundWithAccuracy .binary64 (sign / .positive) (m * 2) (e - -51 - 53) .exact := by
    simp only [UnpackedFloat.div, divCore_full (log2_eq_of_full hlow hhigh)
      (log2_eq_of_full (le_refl (2 ^ 52)) (by decide)) (by omega : -1000 < e - -51), hquotient,
      hrest]
    rfl
  rw [hdiv, hsign, roundWithAccuracy, shiftToTargetExponent_even hlow hhigh (by omega), hexponent]
  dsimp only [ExtendedMantissa.roundedMantissa, ExtendedMantissa.accuracy,
    Accuracy.roundToNearestEven]
  rw [shiftToTargetExponent_full hlow hhigh (by omega)]
  exact dif_neg hpos.ne'

/-- An integer other than zero is rounded by its magnitude. -/
theorem normalize_of_ne {i : Int} (hi : i ≠ 0) :
    ∃ sign : Sign, normalize .binary64 i 0 .positive = round .binary64 sign i.natAbs 0 ∧
      Rounding.nearest i = sign.apply (Rounding.toDouble i.natAbs) := by
  rw [UnpackedFloat.normalize, Rounding.nearest]
  rcases Int.lt_or_gt_of_ne hi with hneg | hpos
  · refine ⟨.negative, ?_, if_pos hneg⟩
    rw [Int.compare_eq_lt.mpr hneg, show (-i).toNat = i.natAbs by omega]
  · refine ⟨.positive, ?_, if_neg (by omega)⟩
    rw [Int.compare_eq_gt.mpr hpos, show i.toNat = i.natAbs by omega]

theorem apply_mul {sign : Sign} {e : Int} {t : Nat} (h : (m : Rat) * 2 ^ e = t) :
    ((sign.apply m : Int) : Rat) * 2 ^ e = (sign.apply t : Int) := by
  cases sign with
  | negative =>
    simp only [Sign.apply]
    push_cast
    rw [neg_mul, h]
  | positive => exact_mod_cast h

variable {o : Int64}

theorem unpack_ofInt64 (ho : o.toInt ≠ 0) :
    ∃ sign m e hm, (ofInt64 o).toModel.unpack = .finite sign m e hm ∧ 2 ^ 52 ≤ m ∧ m < 2 ^ 53 ∧
      -52 ≤ e ∧ e ≤ 12 ∧ ((sign.apply m : Int) : Rat) * 2 ^ e = Rounding.nearest o.toInt := by
  have hleast := o.le_toInt
  have hmost := o.toInt_lt
  obtain ⟨sign, hnormalize, hnearest⟩ := normalize_of_ne ho
  obtain ⟨m, e, hm, hround, hlow, hhigh, he, he', hvalue⟩ :=
    @round_natCast sign o.toInt.natAbs (by omega) (by omega)
  refine ⟨sign, m, e, hm, ?_, hlow, hhigh, he, he', ?_⟩
  · change (Float.Model.pack (normalize .binary64 o.toInt 0 .positive)).unpack = _
    rw [hnormalize, hround, unpack_pack_normal sign hm hlow hhigh (by omega) (by omega)]
  · rw [hnearest, apply_mul hvalue]

theorem unpack_ofInt64_zero (ho : o.toInt = 0) : (ofInt64 o).toModel.unpack = .zero .positive := by
  change (Float.Model.pack (normalize .binary64 o.toInt 0 .positive)).unpack = _
  rw [ho]
  rfl

/-- The conversion is to the nearest double. -/
theorem value?_ofInt64 (o : Int64) : value? (ofInt64 o) = some (Rounding.nearest o.toInt : Rat) := by
  by_cases ho : o.toInt = 0
  · rw [value?, unpack_ofInt64_zero ho, ho]
    rfl
  · obtain ⟨sign, m, e, hm, hunpack, -, -, -, -, hvalue⟩ := unpack_ofInt64 ho
    rw [value?, hunpack, valueOf?, hvalue]

/-- Half of the nearest double is a double. -/
theorem value?_ofInt64_half (o : Int64) :
    value? (ofInt64 o / 2) = some (Rounding.nearest o.toInt / 2 : Rat) := by
  change valueOf? (Float.Model.pack (div .binary64 (ofInt64 o).toModel.unpack
    (2 : Float).toModel.unpack)).unpack = _
  rw [unpack_two]
  by_cases ho : o.toInt = 0
  · have hnone : Rounding.nearest 0 = 0 := by decide
    rw [unpack_ofInt64_zero ho, ho, hnone, Int.cast_zero, zero_div]
    rfl
  · obtain ⟨sign, m, e, hm, hunpack, hlow, hhigh, he, he', hvalue⟩ := unpack_ofInt64 ho
    rw [hunpack, div_two sign hm hlow hhigh (by omega),
      unpack_pack_normal sign hm hlow hhigh (by omega) (by omega), valueOf?, ← hvalue,
      zpow_sub_one₀ (by norm_num)]
    ring_nf

end Double
end Correlator
