import Correlator.Bytes.LittleEndian
import Mathlib

/-!
# Doubles and the numbers they stand for

A double that is not negative and not too close to the ends of its range stands for a rational
number, `Stands`.  The arithmetic of doubles stays within one part in `2 ^ 52` of that of the
numbers, `Within` adds the parts up over several operations, and doubles are in the order of
their numbers.
-/

namespace Correlator
namespace Double

open Float.Model (UnpackedFloat Format)
open Float.Model.UnpackedFloat

/-! ## Shifting and rounding a mantissa -/

theorem mantissa_shiftRight (em : ExtendedMantissa) (k : Nat) :
    (em >>> k).mantissa = em.mantissa / 2 ^ k := by
  change (Nat.repeat ExtendedMantissa.shiftRightOne k em).mantissa = em.mantissa / 2 ^ k
  induction k with
  | zero => rw [Nat.repeat, Nat.pow_zero, Nat.div_one]
  | succ k ih =>
    rw [Nat.repeat, Nat.pow_succ, ← Nat.div_div_eq_div_mul, ← ih]
    rfl

theorem mantissa_ofMantissaAndAccuracy (m : Nat) (accuracy : Accuracy) :
    (ExtendedMantissa.ofMantissaAndAccuracy m accuracy).mantissa = m := by
  rcases accuracy with - | (_ | _ | _) <;> rfl

/-- Rounding goes to the mantissa below or to the one above. -/
theorem roundedMantissa_bounds (em : ExtendedMantissa) :
    em.mantissa ≤ em.roundedMantissa ∧ em.roundedMantissa ≤ em.mantissa + 1 := by
  obtain ⟨m, round, sticky⟩ := em
  cases round <;> cases sticky <;>
    simp only [ExtendedMantissa.roundedMantissa, ExtendedMantissa.accuracy,
      Accuracy.roundToNearestEven] <;>
    omega

theorem targetExponent_eq (m : Nat) (e : Int) :
    Format.binary64.targetExponent (Float.Model.totalExponent m e)
      = max (m.log2 + e - 52) (-1074) := by
  simp only [Format.targetExponent, Float.Model.totalExponent, Format.mantissaBits,
    Format.minExponent]
  omega

theorem log2_eq_of_full {m : Nat} (hlow : 2 ^ 52 ≤ m) (hhigh : m < 2 ^ 53) : m.log2 = 52 :=
  (Nat.log2_eq_iff (by omega)).mpr ⟨hlow, hhigh⟩

/-- A mantissa of 53 bits stays where it is. -/
theorem shiftToTargetExponent_full {m : Nat} {e : Int} (hlow : 2 ^ 52 ≤ m) (hhigh : m < 2 ^ 53)
    (he : -1074 ≤ e) :
    shiftToTargetExponent .binary64 m e .exact = (⟨m, false, false⟩, e) := by
  have hnone : (max ((m.log2 : Int) + e - 52) (-1074) - e).toNat = 0 := by
    rw [log2_eq_of_full hlow hhigh]
    omega
  simp only [shiftToTargetExponent, targetExponent_eq, shiftToExponent, hnone]
  exact Prod.ext rfl (Int.add_zero e)

/-- A mantissa of 54 bits that ends in a zero loses it. -/
theorem shiftToTargetExponent_even {m : Nat} {e : Int} (hlow : 2 ^ 52 ≤ m) (hhigh : m < 2 ^ 53)
    (he : -1074 ≤ e) :
    shiftToTargetExponent .binary64 (m * 2) e .exact = (⟨m, false, false⟩, e + 1) := by
  have hlog : (m * 2).log2 = 53 := (Nat.log2_eq_iff (by omega)).mpr ⟨by omega, by omega⟩
  have hone : (max (((m * 2).log2 : Int) + e - 52) (-1074) - e).toNat = 1 := by omega
  simp only [shiftToTargetExponent, targetExponent_eq, shiftToExponent, hone]
  refine Prod.ext ?_ rfl
  change ExtendedMantissa.mk (m * 2 / 2) (m * 2 % 2 != 0) false = ⟨m, false, false⟩
  rw [Nat.mul_div_cancel m (by decide), Nat.mul_mod_left]
  rfl

/-! ## Numbers that doubles stand for -/

/-- What a double that is zero or has all 53 bits of its mantissa stands for. -/
inductive Holds : UnpackedFloat → Rat → Prop
  | zero : Holds (.zero .positive) 0
  | normal (m : Nat) (e : Int) (hpos : 0 < m) :
    2 ^ 52 ≤ m → m < 2 ^ 53 → -1074 ≤ e → e ≤ 971 →
      Holds (.finite .positive m e hpos) (m * 2 ^ e)

/-- Numbers that are zero or well within the range of doubles. -/
def Moderate (x : Rat) : Prop := x = 0 ∨ (2 ^ (-100 : Int) ≤ x ∧ x < 2 ^ (100 : Int))

/-- Two numbers that differ by no more than one part in `2 ^ 52` of the second. -/
def Near (u x : Rat) : Prop := |u - x| ≤ x / 2 ^ 52

/-- The exponents at which the leading bit of a mantissa for a moderate number stands. -/
theorem log2_add_bounds {m : Nat} {e : Int} {x : Rat} (hpos : 0 < m) (hlow : m * 2 ^ e ≤ x)
    (hhigh : x < (m + 1) * 2 ^ e) (hleast : 2 ^ (-100 : Int) ≤ x) (hmost : x < 2 ^ (100 : Int)) :
    -101 < (m.log2 : Int) + e ∧ (m.log2 : Int) + e < 100 := by
  have hscale : (0 : Rat) < 2 ^ e := by positivity
  constructor
  · have hbits : ((m : Rat) + 1) ≤ 2 ^ (m.log2 + 1) := by exact_mod_cast Nat.lt_log2_self
    have hx : (2 : Rat) ^ (-100 : Int) < 2 ^ ((m.log2 : Int) + 1 + e) := by
      calc (2 : Rat) ^ (-100 : Int) ≤ x := hleast
        _ < (m + 1) * 2 ^ e := hhigh
        _ ≤ 2 ^ (m.log2 + 1) * 2 ^ e := by gcongr
        _ = 2 ^ ((m.log2 : Int) + 1 + e) := by
          rw [zpow_add₀ (by norm_num), ← zpow_natCast, Nat.cast_add, Nat.cast_one]
    have hexp := (zpow_lt_zpow_iff_right₀ (by norm_num)).mp hx
    omega
  · have hbits : (2 : Rat) ^ m.log2 ≤ m := by exact_mod_cast Nat.log2_self_le hpos.ne'
    have hx : (2 : Rat) ^ ((m.log2 : Int) + e) < 2 ^ (100 : Int) := by
      calc (2 : Rat) ^ ((m.log2 : Int) + e) = 2 ^ m.log2 * 2 ^ e := by
            rw [zpow_add₀ (by norm_num), zpow_natCast]
        _ ≤ m * 2 ^ e := by gcongr
        _ ≤ x := hlow
        _ < 2 ^ (100 : Int) := hmost
    exact (zpow_lt_zpow_iff_right₀ (by norm_num)).mp hx

/-- Two numbers in the same step between mantissas of 53 bits are near. -/
theorem near_of_same_step {u x scale : Rat} {floor : Nat} (hscale : 0 < scale)
    (hfloor : 2 ^ 52 ≤ floor) (hu : floor * scale ≤ u) (hu' : u ≤ (floor + 1) * scale)
    (hx : floor * scale ≤ x) (hx' : x ≤ (floor + 1) * scale) : Near u x := by
  have hstep : scale ≤ x / 2 ^ 52 := by
    rw [le_div_iff₀ (by positivity)]
    calc scale * 2 ^ 52 ≤ scale * floor := by
          gcongr
          exact_mod_cast hfloor
      _ = floor * scale := mul_comm _ _
      _ ≤ x := hx
  rw [Near, abs_le]
  constructor <;> linarith

/-- The mantissa that is left when all but 53 bits have been shifted out. -/
theorem div_full {m k : Nat} (hpos : 0 < m) (hk : m.log2 = 52 + k) :
    2 ^ 52 ≤ m / 2 ^ k ∧ m / 2 ^ k < 2 ^ 53 := by
  have hself := Nat.log2_self_le hpos.ne'
  have hlt : m < 2 ^ (m.log2 + 1) := Nat.lt_log2_self
  rw [hk] at hself hlt
  rw [Nat.le_div_iff_mul_le (by positivity), Nat.div_lt_iff_lt_mul (by positivity),
    ← Nat.pow_add, ← Nat.pow_add]
  exact ⟨hself, by rwa [show 53 + k = 52 + k + 1 by omega]⟩

/-- The mantissa that comes of appending zeros until there are 53 bits. -/
theorem mul_full {m shift : Nat} (hpos : 0 < m) (hshift : m.log2 + shift = 52) :
    2 ^ 52 ≤ m * 2 ^ shift ∧ m * 2 ^ shift < 2 ^ 53 := by
  constructor
  · calc 2 ^ 52 = 2 ^ m.log2 * 2 ^ shift := by rw [← Nat.pow_add, hshift]
      _ ≤ m * 2 ^ shift := Nat.mul_le_mul_right _ (Nat.log2_self_le hpos.ne')
  · calc m * 2 ^ shift < 2 ^ (m.log2 + 1) * 2 ^ shift :=
          Nat.mul_lt_mul_of_pos_right Nat.lt_log2_self (by positivity)
      _ = 2 ^ 53 := by rw [← Nat.pow_add, Nat.add_right_comm, hshift]

/-- A shift leaves a number between the mantissa that is left and the next one. -/
theorem shift_bounds {m : Nat} {e : Int} {x : Rat} (k : Nat) (hlow : m * 2 ^ e ≤ x)
    (hhigh : x < (m + 1) * 2 ^ e) :
    ((m / 2 ^ k : Nat) : Rat) * 2 ^ (e + k) ≤ x ∧
      x ≤ ((m / 2 ^ k : Nat) + 1 : Rat) * 2 ^ (e + k) := by
  have hsplit : (2 : Rat) ^ (e + k) = 2 ^ k * 2 ^ e := by
    rw [zpow_add₀ (by norm_num), zpow_natCast, mul_comm]
  rw [hsplit, ← mul_assoc, ← mul_assoc]
  constructor
  · refine le_trans ?_ hlow
    gcongr
    exact_mod_cast Nat.div_mul_le_self m (2 ^ k)
  · refine hhigh.le.trans ?_
    gcongr
    exact_mod_cast Nat.lt_mul_of_div_lt (Nat.lt_succ_self (m / 2 ^ k)) (by positivity)

/-- A mantissa that was rounded has 53 bits, or it loses a zero and then it has. -/
theorem shiftToTargetExponent_rounded {r : Nat} {e : Int} (hlow : 2 ^ 52 ≤ r) (hhigh : r ≤ 2 ^ 53)
    (he : -1074 ≤ e) :
    ∃ m e', shiftToTargetExponent .binary64 r e .exact = (⟨m, false, false⟩, e') ∧
      2 ^ 52 ≤ m ∧ m < 2 ^ 53 ∧ e ≤ e' ∧ e' ≤ e + 1 ∧ (m : Rat) * 2 ^ e' = r * 2 ^ e := by
  rcases Nat.lt_or_eq_of_le hhigh with hless | rfl
  · exact ⟨r, e, shiftToTargetExponent_full hlow hless he, hlow, hless, le_rfl, by omega, rfl⟩
  · have hcarry := shiftToTargetExponent_even (le_refl (2 ^ 52)) (by decide) he
    refine ⟨2 ^ 52, e + 1, hcarry, le_rfl, by decide, by omega, le_rfl, ?_⟩
    rw [zpow_add_one₀ (by norm_num)]
    push_cast
    ring

/-- A mantissa of 53 bits or more is cut to 53, rounded, and cut once more if that made it a
power of two. -/
theorem roundWithAccuracy_cut {m k : Nat} {e : Int} (sign : Sign) (accuracy : Accuracy)
    (hm : 2 ^ 52 ≤ m) (hk : m.log2 = 52 + k) (he : -1074 ≤ e + k) :
    ∃ m' e' hpos, roundWithAccuracy .binary64 sign m e accuracy = .finite sign m' e' hpos ∧
      2 ^ 52 ≤ m' ∧ m' < 2 ^ 53 ∧ e + k ≤ e' ∧ e' ≤ e + k + 1 ∧
      (m' : Rat) * 2 ^ e' = ((ExtendedMantissa.ofMantissaAndAccuracy m accuracy >>>
        k).roundedMantissa : Nat) * 2 ^ (e + k) := by
  have hshift : (max ((m.log2 : Int) + e - 52) (-1074) - e).toNat = k := by omega
  obtain ⟨hfloor, hfloor'⟩ := div_full (by omega) hk
  have hfirst : shiftToTargetExponent .binary64 m e accuracy
      = (ExtendedMantissa.ofMantissaAndAccuracy m accuracy >>> k, e + k) := by
    simp only [shiftToTargetExponent, targetExponent_eq, shiftToExponent, hshift]
  have hrounded := roundedMantissa_bounds (ExtendedMantissa.ofMantissaAndAccuracy m accuracy >>> k)
  rw [mantissa_shiftRight, mantissa_ofMantissaAndAccuracy] at hrounded
  rw [roundWithAccuracy, hfirst]
  dsimp only
  generalize (ExtendedMantissa.ofMantissaAndAccuracy m accuracy >>> k).roundedMantissa = r
    at hrounded ⊢
  obtain ⟨m', e', hsecond, hleast', hmost', he', he'', hvalue⟩ :=
    shiftToTargetExponent_rounded (hfloor.trans hrounded.1) (by omega) he
  rw [hsecond]
  dsimp only
  rw [dif_neg (by omega)]
  exact ⟨m', e', by omega, rfl, hleast', hmost', he', he'', hvalue⟩

/-- A mantissa of 53 bits or more is rounded to a number near the one that it was cut from. -/
theorem roundWithAccuracy_near {m : Nat} {e : Int} {x : Rat} (accuracy : Accuracy)
    (hm : 2 ^ 52 ≤ m) (hlow : m * 2 ^ e ≤ x) (hhigh : x < (m + 1) * 2 ^ e)
    (hleast : 2 ^ (-100 : Int) ≤ x) (hmost : x < 2 ^ (100 : Int)) :
    ∃ u, Holds (roundWithAccuracy .binary64 .positive m e accuracy) u ∧ Near u x := by
  have hpos : 0 < m := by omega
  obtain ⟨hsmall, hlarge⟩ := log2_add_bounds hpos hlow hhigh hleast hmost
  obtain ⟨k, hk⟩ : ∃ k, m.log2 = 52 + k :=
    Nat.exists_eq_add_of_le ((Nat.le_log2 hpos.ne').mpr hm)
  obtain ⟨hx, hx'⟩ := shift_bounds k hlow hhigh
  have hrounded := roundedMantissa_bounds (ExtendedMantissa.ofMantissaAndAccuracy m accuracy >>> k)
  rw [mantissa_shiftRight, mantissa_ofMantissaAndAccuracy] at hrounded
  obtain ⟨m', e', hpos', hround, hleast', hmost', he, he', hvalue⟩ :=
    roundWithAccuracy_cut .positive accuracy hm hk (by omega : -1074 ≤ e + k)
  rw [hround]
  refine ⟨_, Holds.normal m' e' hpos' hleast' hmost' (by omega) (by omega), ?_⟩
  rw [hvalue]
  refine near_of_same_step (by positivity) (div_full hpos hk).1 ?_ ?_ hx hx'
  · gcongr
    exact hrounded.1
  · gcongr
    exact_mod_cast hrounded.2

/-- Before it is cut, a short mantissa gets zeros up to the exponent that it is to have. -/
theorem round_eq {m shift : Nat} {e : Int} (sign : Sign)
    (hshift : (e - max ((m.log2 : Int) + e - 52) (-1074)).toNat = shift) :
    round .binary64 sign m e
      = roundWithAccuracy .binary64 sign (m * 2 ^ shift) (e - shift) .exact := by
  simp only [UnpackedFloat.round, decreaseExponent, targetExponent_eq, hshift, Nat.shiftLeft_eq]

/-- A product of a mantissa and a power of two is rounded to a number near it. -/
theorem round_near {m : Nat} {e : Int} (hpos : 0 < m) (hleast : 2 ^ (-100 : Int) ≤ (m : Rat) * 2 ^ e)
    (hmost : (m : Rat) * 2 ^ e < 2 ^ (100 : Int)) :
    ∃ u, Holds (round .binary64 .positive m e) u ∧ Near u (m * 2 ^ e) := by
  have hsucc : (m : Rat) * 2 ^ e < (m + 1) * 2 ^ e := by
    gcongr
    exact lt_add_one _
  have hbounds := log2_add_bounds hpos le_rfl hsucc hleast hmost
  obtain ⟨shift, hshift⟩ : ∃ shift, (e - max ((m.log2 : Int) + e - 52) (-1074)).toNat = shift :=
    ⟨_, rfl⟩
  have hfull : 2 ^ 52 ≤ m * 2 ^ shift := by
    calc 2 ^ 52 ≤ 2 ^ (m.log2 + shift) := Nat.pow_le_pow_right (by decide) (by omega)
      _ = 2 ^ m.log2 * 2 ^ shift := Nat.pow_add ..
      _ ≤ m * 2 ^ shift := Nat.mul_le_mul_right _ (Nat.log2_self_le hpos.ne')
  have hsame : ((m * 2 ^ shift : Nat) : Rat) * 2 ^ (e - shift) = m * 2 ^ e := by
    rw [zpow_sub₀ (by norm_num), zpow_natCast]
    push_cast
    field_simp
  rw [round_eq .positive hshift]
  refine roundWithAccuracy_near .exact hfull hsame.le ?_ hleast hmost
  rw [← hsame]
  gcongr
  exact lt_add_one _

/-! ## Packing -/

theorem toNat_implicit_append {m : Nat} (hlow : 2 ^ 52 ≤ m) (hhigh : m < 2 ^ 53) :
    (1#1 ++ BitVec.ofNat 52 m).toNat = m := by
  have hlt : m % 2 ^ 52 < 2 ^ 52 := Nat.mod_lt _ (by decide)
  rw [BitVec.toNat_append, BitVec.toNat_ofNat, BitVec.toNat_ofNat,
    ← Nat.shiftLeft_add_eq_or_of_lt hlt]
  omega

variable {m biased : Nat} {e : Int}

theorem pack_normal (sign : Sign) (hpos : 0 < m) (hlow : 2 ^ 52 ≤ m) (hhigh : m < 2 ^ 53)
    (hbiased : (biased : Int) = e + 1075) (hrange : biased < 2047) :
    pack .binary64 (.finite sign m e hpos)
      = packComponents .binary64 sign (BitVec.ofNat 11 biased) (BitVec.ofNat 52 m) := by
  have htoNat : (e + Format.binary64.exponentBias
      + Format.binary64.mantissaBitsWithoutImplicit).toNat = biased := by
    change (e + (1023 : Nat) + (52 : Nat)).toNat = biased
    omega
  have hexponent : ¬ 2 ^ Format.binary64.exponentBits ≤ biased + 1 := by
    change ¬ 2 ^ 11 ≤ biased + 1
    omega
  have hbits : m.log2 + 1 = Format.binary64.mantissaBits := by
    rw [log2_eq_of_full hlow hhigh]
    rfl
  simp only [UnpackedFloat.pack, htoNat, if_neg hexponent, if_pos hbits]

theorem ofBitVec_toBitVec (sign : Sign) : Sign.ofBitVec sign.toBitVec = sign := by
  cases sign <;> rfl

theorem unpack_normal (sign : Sign) (hpos : 0 < m) (hlow : 2 ^ 52 ≤ m) (hhigh : m < 2 ^ 53)
    (hbiased : (biased : Int) = e + 1075) (hzero : 0 < biased) (hrange : biased < 2047) :
    unpack .binary64
        (packComponents .binary64 sign (BitVec.ofNat 11 biased) (BitVec.ofNat 52 m))
      = .finite sign m e hpos := by
  have hexponent : (BitVec.ofNat 11 biased).toNat = biased := by
    rw [BitVec.toNat_ofNat, Nat.mod_eq_of_lt (by omega)]
  have hfinite : BitVec.ofNat 11 biased ≠ -1#11 := by
    rw [ne_eq, ← BitVec.toNat_inj, hexponent]
    exact hrange.ne
  have hnormal : BitVec.ofNat 11 biased ≠ 0#11 := by
    rw [ne_eq, ← BitVec.toNat_inj, hexponent]
    exact hzero.ne'
  have hback : (biased : Int) - (Format.binary64.exponentBias + (52 : Nat)) = e := by
    change (biased : Int) - (1023 + 52) = e
    omega
  rw [UnpackedFloat.unpack]
  simp only [unpackMantissa_packComponents, unpackExponent_packComponents,
    unpackSign_packComponents, if_neg hfinite, if_neg hnormal, hexponent,
    toNat_implicit_append hlow hhigh, hback, ofBitVec_toBitVec]

/-- Nothing of a full mantissa is lost in the bits of a double. -/
theorem unpack_pack_normal (sign : Sign) (hpos : 0 < m) (hlow : 2 ^ 52 ≤ m) (hhigh : m < 2 ^ 53)
    (he : -1074 ≤ e) (he' : e ≤ 971) :
    (Float.Model.pack (.finite sign m e hpos)).unpack = .finite sign m e hpos := by
  obtain ⟨biased, hbiased⟩ : ∃ biased : Nat, (biased : Int) = e + 1075 :=
    ⟨(e + 1075).toNat, Int.toNat_of_nonneg (by omega)⟩
  change unpack .binary64 (pack .binary64 (.finite sign m e hpos)) = _
  rw [pack_normal sign hpos hlow hhigh hbiased (by omega),
    unpack_normal sign hpos hlow hhigh hbiased (by omega) (by omega)]

theorem Holds.unpack_pack {f : UnpackedFloat} {v : Rat} (h : Holds f v) :
    (Float.Model.pack f).unpack = f := by
  cases h with
  | zero => rfl
  | normal m e hpos hlow hhigh he he' => exact unpack_pack_normal _ hpos hlow hhigh he he'

/-! ## Arithmetic -/

/-- The number that a double stands for. -/
def Stands (x : Float) (v : Rat) : Prop := Holds x.toModel.unpack v

theorem stands_of_near {f : UnpackedFloat} {x : Rat} (h : ∃ u, Holds f u ∧ Near u x) :
    ∃ u, Stands (.ofModel (.pack f)) u ∧ Near u x := by
  obtain ⟨u, hu, hnear⟩ := h
  refine ⟨u, ?_, hnear⟩
  rw [Stands, hu.unpack_pack]
  exact hu

variable {x y : Float} {v w : Rat}

theorem near_self {x : Rat} (h : 0 ≤ x) : Near x x := by
  rw [Near, sub_self, abs_zero]
  positivity

/-- A mantissa that is brought to a lower exponent. -/
theorem mul_pow_toNat {e least : Int} (m : Nat) (h : least ≤ e) :
    ((m * 2 ^ (e - least).toNat : Nat) : Rat) * 2 ^ least = m * 2 ^ e := by
  have hsplit : (2 : Rat) ^ e = 2 ^ (e - least).toNat * 2 ^ least := by
    rw [← zpow_natCast, ← zpow_add₀ (by norm_num), Int.toNat_of_nonneg (by omega),
      Int.sub_add_cancel]
  rw [hsplit]
  push_cast
  ring

theorem normalize_natCast {m : Nat} (hpos : 0 < m) (e : Int) (sign : Sign) :
    normalize .binary64 m e sign = round .binary64 .positive m e := by
  have hcompare : compare (m : Int) 0 = .gt := Int.compare_eq_gt.mpr (by omega)
  rw [UnpackedFloat.normalize, hcompare]
  rfl

variable {m' : Nat} {e' : Int}

theorem add_near (hpos : 0 < m) (hpos' : 0 < m')
    (hsum : Moderate ((m : Rat) * 2 ^ e + m' * 2 ^ e')) :
    ∃ u, Holds (add .binary64 (.finite .positive m e hpos) (.finite .positive m' e' hpos')) u ∧
      Near u (m * 2 ^ e + m' * 2 ^ e') := by
  have hadd : add .binary64 (.finite .positive m e hpos) (.finite .positive m' e' hpos')
      = round .binary64 .positive (m * 2 ^ (e - min e e').toNat
        + m' * 2 ^ (e' - min e e').toNat) (min e e') := by
    simp only [UnpackedFloat.add, decreaseExponent, Sign.apply, Nat.shiftLeft_eq]
    rw [← Nat.cast_add, normalize_natCast (by positivity)]
  have hvalue : ((m * 2 ^ (e - min e e').toNat + m' * 2 ^ (e' - min e e').toNat : Nat) : Rat)
      * 2 ^ (min e e') = m * 2 ^ e + m' * 2 ^ e' := by
    rw [Nat.cast_add, add_mul, mul_pow_toNat m (min_le_left e e'),
      mul_pow_toNat m' (min_le_right e e')]
  have hpositive : (0 : Rat) < m * 2 ^ e + m' * 2 ^ e' := by positivity
  obtain ⟨hleast, hmost⟩ := hsum.resolve_left hpositive.ne'
  rw [hadd, ← hvalue]
  exact round_near (by positivity) (hvalue ▸ hleast) (hvalue ▸ hmost)

theorem mul_near (hpos : 0 < m) (hpos' : 0 < m') (hlow : 2 ^ 52 ≤ m)
    (hproduct : Moderate ((m : Rat) * 2 ^ e * (m' * 2 ^ e'))) :
    ∃ u, Holds (mul .binary64 (.finite .positive m e hpos) (.finite .positive m' e' hpos')) u ∧
      Near u (m * 2 ^ e * (m' * 2 ^ e')) := by
  have hmul : mul .binary64 (.finite .positive m e hpos) (.finite .positive m' e' hpos')
      = roundWithAccuracy .binary64 .positive (m * m') (e + e') .exact := rfl
  have hvalue : ((m * m' : Nat) : Rat) * 2 ^ (e + e') = m * 2 ^ e * (m' * 2 ^ e') := by
    rw [zpow_add₀ (by norm_num)]
    push_cast
    ring
  have hpositive : (0 : Rat) < m * 2 ^ e * (m' * 2 ^ e') := by positivity
  obtain ⟨hleast, hmost⟩ := hproduct.resolve_left hpositive.ne'
  have hfull : 2 ^ 52 ≤ m * m' := hlow.trans (Nat.le_mul_of_pos_right m hpos')
  rw [hmul, ← hvalue]
  refine roundWithAccuracy_near .exact hfull le_rfl ?_ (hvalue ▸ hleast) (hvalue ▸ hmost)
  gcongr
  exact lt_add_one _

/-- Of a quotient 53 bits or 54 are found before it is rounded. -/
theorem divCore_full (hm : m.log2 = 52) (hm' : m'.log2 = 52) (hgap : -1000 < e - e') :
    divCore .binary64 m e m' e'
      = (m * 2 ^ 53 / m', e - e' - 53, accuracyOfFraction (m * 2 ^ 53 % m') m') := by
  have htarget : min (e - e') (Format.binary64.targetExponent
      (Float.Model.totalExponent m e - Float.Model.totalExponent m' e')) = e - e' - 53 := by
    simp only [Format.targetExponent, Float.Model.totalExponent, Format.mantissaBits,
      Format.minExponent, hm, hm']
    omega
  have hshift : (e - e' - (e - e' - 53)).toNat = 53 := by omega
  simp only [divCore, htarget, hshift, Nat.shiftLeft_eq]

/-- Full mantissas differ by less than a factor of two, so the exponents say how large their
quotient is. -/
theorem exponents_apart (hpos' : 0 < m') (hhigh : m < 2 ^ 53) (hlow' : 2 ^ 52 ≤ m')
    (hleast : 2 ^ (-100 : Int) ≤ (m : Rat) * 2 ^ e / (m' * 2 ^ e')) : -1000 < e - e' := by
  have hbelow : (2 : Rat) ^ (-100 : Int) < 2 ^ (1 + (e - e')) := by
    refine hleast.trans_lt ((div_lt_iff₀ (by positivity)).mpr ?_)
    have hhalf : (m : Rat) < 2 * m' := by exact_mod_cast (by omega : m < 2 * m')
    calc (m : Rat) * 2 ^ e < 2 * m' * 2 ^ e := by gcongr
      _ = 2 ^ (1 + (e - e')) * (m' * 2 ^ e') := by
        rw [zpow_add₀ (by norm_num), zpow_sub₀ (by norm_num)]
        field_simp
  have hexp := (zpow_lt_zpow_iff_right₀ (by norm_num)).mp hbelow
  omega

theorem div_near (hpos : 0 < m) (hpos' : 0 < m') (hlow : 2 ^ 52 ≤ m) (hhigh : m < 2 ^ 53)
    (hlow' : 2 ^ 52 ≤ m') (hhigh' : m' < 2 ^ 53)
    (hquotient : Moderate ((m : Rat) * 2 ^ e / (m' * 2 ^ e'))) :
    ∃ u, Holds (div .binary64 (.finite .positive m e hpos) (.finite .positive m' e' hpos')) u ∧
      Near u (m * 2 ^ e / (m' * 2 ^ e')) := by
  have hpositive : (0 : Rat) < m * 2 ^ e / (m' * 2 ^ e') := by positivity
  obtain ⟨hleast, hmost⟩ := hquotient.resolve_left hpositive.ne'
  have hvalue : (m : Rat) * 2 ^ e / (m' * 2 ^ e')
      = ((m * 2 ^ 53 : Nat) : Rat) / m' * 2 ^ (e - e' - 53) := by
    rw [zpow_sub₀ (by norm_num), zpow_sub₀ (by norm_num)]
    push_cast
    field_simp
  have hdiv : div .binary64 (.finite .positive m e hpos) (.finite .positive m' e' hpos')
      = roundWithAccuracy .binary64 .positive (m * 2 ^ 53 / m') (e - e' - 53)
        (accuracyOfFraction (m * 2 ^ 53 % m') m') := by
    simp only [UnpackedFloat.div, divCore_full (log2_eq_of_full hlow hhigh)
      (log2_eq_of_full hlow' hhigh') (exponents_apart hpos' hhigh hlow' hleast)]
    rfl
  have hfull : 2 ^ 52 ≤ m * 2 ^ 53 / m' := by
    rw [Nat.le_div_iff_mul_le hpos']
    calc 2 ^ 52 * m' ≤ 2 ^ 52 * 2 ^ 53 := Nat.mul_le_mul_left _ hhigh'.le
      _ ≤ m * 2 ^ 53 := Nat.mul_le_mul_right _ hlow
  rw [hdiv]
  refine roundWithAccuracy_near _ hfull ?_ ?_ hleast hmost
  · rw [hvalue]
    gcongr
    exact Nat.cast_div_le
  · rw [hvalue]
    gcongr
    rw [div_lt_iff₀ (by positivity)]
    exact_mod_cast Nat.lt_mul_of_div_lt (Nat.lt_succ_self _) hpos'

theorem stands_add (hx : Stands x v) (hy : Stands y w) (hsum : Moderate (v + w)) :
    ∃ u, Stands (x + y) u ∧ Near u (v + w) := by
  change ∃ u, Stands (.ofModel (.pack (add .binary64 x.toModel.unpack y.toModel.unpack))) u ∧ _
  rw [Stands] at hx hy
  apply stands_of_near
  generalize x.toModel.unpack = f at hx ⊢
  generalize y.toModel.unpack = g at hy ⊢
  cases hx with
  | zero =>
    rw [zero_add]
    cases hy with
    | zero => exact ⟨0, .zero, near_self le_rfl⟩
    | normal m e hpos hlow hhigh he he' =>
      exact ⟨_, .normal m e hpos hlow hhigh he he', near_self (by positivity)⟩
  | normal m e hpos hlow hhigh he he' =>
    cases hy with
    | zero =>
      rw [add_zero]
      exact ⟨_, .normal m e hpos hlow hhigh he he', near_self (by positivity)⟩
    | normal m' e' hpos' => exact add_near hpos hpos' hsum

theorem stands_mul (hx : Stands x v) (hy : Stands y w) (hproduct : Moderate (v * w)) :
    ∃ u, Stands (x * y) u ∧ Near u (v * w) := by
  change ∃ u, Stands (.ofModel (.pack (mul .binary64 x.toModel.unpack y.toModel.unpack))) u ∧ _
  rw [Stands] at hx hy
  apply stands_of_near
  generalize x.toModel.unpack = f at hx ⊢
  generalize y.toModel.unpack = g at hy ⊢
  cases hx with
  | zero =>
    rw [zero_mul]
    cases hy with
    | zero | normal => exact ⟨0, .zero, near_self le_rfl⟩
  | normal m e hpos hlow =>
    cases hy with
    | zero =>
      rw [mul_zero]
      exact ⟨0, .zero, near_self le_rfl⟩
    | normal m' e' hpos' => exact mul_near hpos hpos' hlow hproduct

theorem stands_div (hx : Stands x v) (hy : Stands y w) (hpos : 0 < w)
    (hquotient : Moderate (v / w)) : ∃ u, Stands (x / y) u ∧ Near u (v / w) := by
  change ∃ u, Stands (.ofModel (.pack (div .binary64 x.toModel.unpack y.toModel.unpack))) u ∧ _
  rw [Stands] at hx hy
  apply stands_of_near
  generalize x.toModel.unpack = f at hx ⊢
  generalize y.toModel.unpack = g at hy ⊢
  cases hy with
  | zero => exact absurd hpos (lt_irrefl 0)
  | normal m' e' hpos' hlow' hhigh' =>
    cases hx with
    | zero =>
      rw [zero_div]
      exact ⟨0, .zero, near_self le_rfl⟩
    | normal m e hposm hlow hhigh =>
      exact div_near hposm hpos' hlow hhigh hlow' hhigh' hquotient

/-- A natural number that is read as a double. -/
theorem stands_toFloat {n : Nat} (hn : n < 2 ^ 53) :
    ∃ u, Stands n.toUInt64.toFloat u ∧ Near u n := by
  have htoNat : n.toUInt64.toNat = n := UInt64.toNat_ofNat_of_lt (hn.trans (by decide))
  change ∃ u, Stands (.ofModel (.pack (normalize .binary64 (n.toUInt64.toNat : Int) 0
    .positive))) u ∧ _
  rw [htoNat]
  apply stands_of_near
  rcases Nat.eq_zero_or_pos n with rfl | hpos
  · exact ⟨0, .zero, near_self le_rfl⟩
  · have hone : (1 : Rat) ≤ n := by exact_mod_cast hpos
    have hmost : (n : Rat) < 2 ^ 53 := by exact_mod_cast hn
    have hvalue : (n : Rat) * 2 ^ (0 : Int) = n := by rw [zpow_zero, mul_one]
    have hround := round_near hpos (e := 0)
    rw [hvalue] at hround
    rw [normalize_natCast hpos]
    exact hround (by norm_num; linarith) (by norm_num; linarith)

theorem ofNat_eq {n : Nat} (hn : n < 2 ^ 53) :
    Float.ofNat n = n.toUInt64.toFloat * Float.exactlyRepresentablePowersOfTen[0] := by
  change Float.ofScientific n false 0 = _
  rw [Float.ofScientific, dif_pos ⟨hn, by decide⟩]
  rfl

/-- A natural number that is written as a double, with its zeros appended. -/
theorem stands_of_unpack {n k : Nat} (hfull : 2 ^ 52 ≤ n * 2 ^ k ∧ n * 2 ^ k < 2 ^ 53)
    (h : x.toModel.unpack
      = .finite .positive (n * 2 ^ k) (-k) (Nat.lt_of_lt_of_le (by decide) hfull.1)) :
    Stands x n := by
  have hpos : 0 < n * 2 ^ k := Nat.lt_of_lt_of_le (by decide) hfull.1
  have hk : k < 53 := by
    rw [← Nat.pow_lt_pow_iff_right (by decide : 1 < 2)]
    exact Nat.lt_of_le_of_lt (Nat.le_mul_of_pos_left _ (Nat.pos_of_mul_pos_right hpos)) hfull.2
  have hholds := Holds.normal (n * 2 ^ k) (-k) hpos hfull.1 hfull.2 (by omega) (by omega)
  have hvalue : ((n * 2 ^ k : Nat) : Rat) * 2 ^ (-k : Int) = n := by
    push_cast
    rw [mul_assoc, ← zpow_natCast, ← zpow_add₀ (by norm_num), add_neg_cancel, zpow_zero, mul_one]
  rwa [hvalue, ← h] at hholds

theorem stands_one : Stands Float.exactlyRepresentablePowersOfTen[0] (1 : Nat) :=
  stands_of_unpack (k := 52) (by decide) rfl

/-! ## Several operations -/

/-- Two numbers that differ by no more than `k` parts in `2 ^ 52` of the second. -/
def Within (k : Nat) (u x : Rat) : Prop := |u - x| ≤ k * x / 2 ^ 52

namespace Within

variable {k k' : Nat} {u u' x x' c : Rat}

theorem refl (x : Rat) : Within 0 x x := by
  rw [Within, sub_self, abs_zero, Nat.cast_zero, zero_mul, zero_div]

theorem mono (h : Within k u x) (hle : k ≤ k') (hx : 0 ≤ x) : Within k' u x := by
  have hcast : (k : Rat) ≤ k' := by exact_mod_cast hle
  calc |u - x| ≤ k * x / 2 ^ 52 := h
    _ ≤ k' * x / 2 ^ 52 := by gcongr

theorem add (h : Within k u x) (h' : Within k u' x') : Within k (u + u') (x + x') := by
  calc |u + u' - (x + x')| = |(u - x) + (u' - x')| := by rw [add_sub_add_comm]
    _ ≤ |u - x| + |u' - x'| := abs_add_le _ _
    _ ≤ k * x / 2 ^ 52 + k * x' / 2 ^ 52 := add_le_add h h'
    _ = k * (x + x') / 2 ^ 52 := by ring

theorem mul (h : Within k u x) (hc : 0 ≤ c) : Within k (u * c) (x * c) := by
  calc |u * c - x * c| = |u - x| * c := by rw [← sub_mul, abs_mul, abs_of_nonneg hc]
    _ ≤ k * x / 2 ^ 52 * c := mul_le_mul_of_nonneg_right h hc
    _ = k * (x * c) / 2 ^ 52 := by ring

theorem div (h : Within k u x) (hc : 0 ≤ c) : Within k (u / c) (x / c) := by
  rw [div_eq_mul_inv, div_eq_mul_inv]
  exact h.mul (inv_nonneg.mpr hc)

/-- The error is small beside the number. -/
theorem le_half (h : Within k u x) (hk : k ≤ 2 ^ 51) (hx : 0 ≤ x) : |u - x| ≤ x / 2 := by
  have hcast : (k : Rat) ≤ 2 ^ 51 := by exact_mod_cast hk
  calc |u - x| ≤ k * x / 2 ^ 52 := h
    _ ≤ 2 ^ 51 * x / 2 ^ 52 := by gcongr
    _ = x / 2 := by ring

/-- Rounding adds a little to the error. -/
theorem round (h : Within k u x) (hk : k ≤ 2 ^ 51) (hx : 0 ≤ x) (hnear : Near u' u) :
    Within (k + 2) u' x := by
  have hhalf := abs_le.mp (h.le_half hk hx)
  calc |u' - x| ≤ |u' - u| + |u - x| := abs_sub_le _ _ _
    _ ≤ u / 2 ^ 52 + k * x / 2 ^ 52 := add_le_add hnear h
    _ ≤ 2 * x / 2 ^ 52 + k * x / 2 ^ 52 := by
      gcongr
      linarith
    _ = (k + 2 : Nat) * x / 2 ^ 52 := by
      push_cast
      ring

/-- Numbers that are met in practice are moderate. -/
theorem moderate (h : Within k u x) (hk : k ≤ 2 ^ 51) (hleast : x = 0 ∨ 1 / 10 ^ 6 ≤ x)
    (hmost : x ≤ 10 ^ 16) : Moderate u := by
  rcases hleast with rfl | hleast
  · left
    have hhalf := h.le_half hk le_rfl
    rwa [sub_zero, zero_div, abs_nonpos_iff] at hhalf
  · right
    norm_num at hleast hmost
    have hhalf := abs_le.mp (h.le_half hk (by linarith))
    norm_num
    constructor <;> linarith

end Within

theorem stands_ofNat {n : Nat} (hn : n < 2 ^ 53) :
    ∃ u, Stands (Float.ofNat n) u ∧ Within 4 u n := by
  obtain ⟨u, hu, hnear⟩ := stands_toFloat hn
  have hnonneg : (0 : Rat) ≤ n := Nat.cast_nonneg n
  have hmost : (n : Rat) < 2 ^ 53 := by exact_mod_cast hn
  have hleast : (n : Rat) = 0 ∨ 1 / 10 ^ 6 ≤ (n : Rat) := by
    rcases Nat.eq_zero_or_pos n with rfl | hpos
    · exact .inl Nat.cast_zero
    · have hone : (1 : Rat) ≤ n := by exact_mod_cast hpos
      right
      norm_num
      linarith
  have hwithin : Within 2 (u * (1 : Nat)) n := by
    rw [Nat.cast_one, mul_one]
    exact (Within.refl _).round (by decide) hnonneg hnear
  have hmoderate := hwithin.moderate (by decide) hleast (by norm_num at hmost ⊢; linarith)
  obtain ⟨v, hv, hnear'⟩ := stands_mul hu stands_one hmoderate
  exact ⟨v, (ofNat_eq hn).symm ▸ hv, hwithin.round (by decide) hnonneg hnear'⟩

/-! ## Order -/

/-- Full mantissas with their exponents are in the order of their numbers. -/
theorem exponent_lt_or {m m' : Nat} {e e' : Int} (hlow : 2 ^ 52 ≤ m) (hhigh' : m' < 2 ^ 53)
    (h : (m : Rat) * 2 ^ e < m' * 2 ^ e') : e < e' ∨ e = e' ∧ m < m' := by
  rcases Int.lt_trichotomy e e' with hless | rfl | hmore
  · exact .inl hless
  · refine .inr ⟨rfl, ?_⟩
    have hmantissa := lt_of_mul_lt_mul_right h (by positivity)
    exact_mod_cast hmantissa
  · have hover : (m' : Rat) * 2 ^ e' ≤ m * 2 ^ e := by
      calc (m' : Rat) * 2 ^ e' ≤ 2 ^ 53 * 2 ^ e' := by
            gcongr
            exact_mod_cast hhigh'.le
        _ = 2 ^ 52 * 2 ^ (e' + 1) := by
          rw [zpow_add_one₀ (by norm_num)]
          ring
        _ ≤ m * 2 ^ e := by
          gcongr
          · exact_mod_cast hlow
          · norm_num
          · exact hmore
    exact absurd h hover.not_gt

theorem lt_of_stands (hx : Stands x v) (hy : Stands y w) (h : v < w) : x < y := by
  change decide (x.toModel.unpack.lt y.toModel.unpack = true) = true
  rw [decide_eq_true_eq]
  rw [Stands] at hx hy
  generalize x.toModel.unpack = f at hx ⊢
  generalize y.toModel.unpack = g at hy ⊢
  cases hx with
  | zero =>
    cases hy with
    | zero => exact absurd h (lt_irrefl 0)
    | normal => rfl
  | normal m e hpos hlow hhigh =>
    cases hy with
    | zero =>
      have hpositive : (0 : Rat) < m * 2 ^ e := by positivity
      exact absurd h hpositive.not_gt
    | normal m' e' hpos' hlow' hhigh' =>
      change ((some ((compare e e').then (compare m m'))) == some .lt) = true
      rcases exponent_lt_or hlow hhigh' h with hless | ⟨rfl, hless⟩
      · rw [Int.compare_eq_lt.mpr hless]
        rfl
      · rw [Int.compare_eq_eq.mpr rfl, Nat.compare_eq_lt.mpr hless]
        rfl

/-- What stands for a number is not below zero. -/
theorem zero_le_of_stands (h : Stands x v) : 0 ≤ x := by
  change decide ((0 : Float).toModel.unpack.le x.toModel.unpack = true) = true
  rw [decide_eq_true_eq]
  rw [Stands] at h
  generalize x.toModel.unpack = f at h ⊢
  cases h with
  | zero | normal => rfl

end Double
end Correlator
