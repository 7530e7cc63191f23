import Correlator.Proofs.Double.Nearest
import Correlator.Proofs.Fringe.Lags

/-!
# Offsets in samples of the signal

An offset in lags is halved by way of the nearest double.  What comes out is half of that
double, rounded away from zero: `halfOffset_eq`.  All else follows, since taking the nearest
double, halving and rounding each keep the order and turn with the sign.
-/

namespace Correlator

/-- The integer nearest to a number, a half away from zero. -/
def roundAway (x : Rat) : Int := if x < 0 then -round (-x) else round x

theorem round_mono {x y : Rat} (h : x ≤ y) : round x ≤ round y := by
  rw [round_eq, round_eq]
  exact Int.floor_mono (by linarith)

theorem roundAway_of_nonneg {x : Rat} (h : 0 ≤ x) : roundAway x = round x := if_neg (not_lt.mpr h)

theorem roundAway_nonneg {x : Rat} (h : 0 ≤ x) : 0 ≤ roundAway x := by
  rw [roundAway_of_nonneg h, ← @round_zero Rat]
  exact round_mono h

theorem roundAway_neg (x : Rat) : roundAway (-x) = -roundAway x := by
  rcases lt_trichotomy x 0 with hneg | rfl | hpos
  · rw [roundAway_of_nonneg (by linarith), roundAway, if_pos hneg, neg_neg]
  · rw [neg_zero, roundAway_of_nonneg le_rfl, round_zero, neg_zero]
  · rw [roundAway_of_nonneg hpos.le, roundAway, if_pos (by linarith), neg_neg]

theorem roundAway_mono {x y : Rat} (h : x ≤ y) : roundAway x ≤ roundAway y := by
  rcases le_total 0 x with hx | hx
  · rw [roundAway_of_nonneg hx, roundAway_of_nonneg (hx.trans h)]
    exact round_mono h
  have hx' : roundAway (-x) = round (-x) := roundAway_of_nonneg (by linarith)
  rw [← neg_neg x, roundAway_neg, hx']
  rcases le_total 0 y with hy | hy
  · have hnonneg := roundAway_nonneg hy
    have hx'' := hx' ▸ roundAway_nonneg (by linarith : 0 ≤ -x)
    omega
  · have hy' : roundAway (-y) = round (-y) := roundAway_of_nonneg (by linarith)
    have hle : round (-y) ≤ round (-x) := round_mono (by linarith)
    rw [← neg_neg y, roundAway_neg, hy']
    omega

/-- Half of an integer, rounded away from zero. -/
theorem roundAway_half (n : Nat) : roundAway ((n : Rat) / 2) = (n + 1) / 2 := by
  have hdouble : 2 * ((n : Rat) / 2) = n := by ring
  rw [roundAway_of_nonneg (by positivity), round_eq_div, hdouble, Int.floor_natCast]

/-- The offset in samples is half of the nearest double, rounded away from zero. -/
theorem halfOffset_eq (o : Int) : halfOffset o = roundAway ((Rounding.nearest o : Rat) / 2) := by
  rw [halfOffset, Rounding.nearest]
  split
  · rw [Int.cast_neg, neg_div, roundAway_neg, Int.cast_natCast, roundAway_half]
  · rw [Int.cast_natCast, roundAway_half]

theorem halfOffset_neg (o : Int) : halfOffset (-o) = -halfOffset o := by
  rw [halfOffset_eq, halfOffset_eq, Rounding.nearest_neg, Int.cast_neg, neg_div, roundAway_neg]

theorem halfOffset_mono {o o' : Int} (h : o ≤ o') : halfOffset o ≤ halfOffset o' := by
  have hnearest : (Rounding.nearest o : Rat) ≤ Rounding.nearest o' := by
    exact_mod_cast Rounding.nearest_mono h
  rw [halfOffset_eq, halfOffset_eq]
  exact roundAway_mono (by linarith)

theorem halfOffset_of_abs_le {o : Int} (h : |o| ≤ 2 ^ 53) :
    halfOffset o = roundAway ((o : Rat) / 2) := by
  rw [halfOffset_eq, Rounding.nearest_of_abs_le h]

/-- The offset of a machine integer in machine steps: as a double, halved as a double, rounded
away from zero, and taken back.  There is none if a step is out of its range. -/
def halfOffset? (o : Int64) : Option Int64 :=
  (Double.value? (Double.ofInt64 o / 2)).bind fun half =>
    if Int64.minValue.toInt ≤ roundAway half ∧ roundAway half ≤ Int64.maxValue.toInt then
      some (Int64.ofInt (roundAway half))
    else none

/-- Every step stays in its range. -/
theorem halfOffset?_eq (o : Int64) :
    ∃ r, halfOffset? o = some r ∧ r.toInt = halfOffset o.toInt := by
  have hleast : halfOffset (-2 ^ 63) ≤ halfOffset o.toInt := halfOffset_mono o.le_toInt
  have hmost : halfOffset o.toInt ≤ halfOffset (2 ^ 63) := halfOffset_mono o.toInt_lt.le
  have hend : halfOffset (2 ^ 63) = 2 ^ 62 := by decide
  rw [halfOffset_neg] at hleast
  have hrange : Int64.minValue.toInt ≤ halfOffset o.toInt
      ∧ halfOffset o.toInt ≤ Int64.maxValue.toInt := by
    rw [Int64.toInt_minValue, Int64.toInt_maxValue]
    omega
  refine ⟨Int64.ofInt (halfOffset o.toInt), ?_, ?_⟩
  · rw [halfOffset?, Double.value?_ofInt64_half, Option.bind_some, ← halfOffset_eq, if_pos hrange]
  · exact Int64.toInt_ofInt_of_le (by omega) (by omega)

/-- The offset in samples of the signal is half of the offset in lags.  Up to `2 ^ 53` lags,
which covers every search whose spectra fit into `2 ^ 57` bytes, the half is exact before it is
rounded, away from zero.  It turns with the sign and keeps the order for all offsets, also where
neighbours share a double; and for every machine integer the machine steps give it. -/
theorem Fringe.offsetIn_nyquist :
    (∀ o : Int64, |o.toInt| ≤ 2 ^ 53 → Double.value? (Double.ofInt64 o) = some (o.toInt : Rat) ∧
      Double.value? (Double.ofInt64 o / 2) = some ((o.toInt : Rat) / 2)) ∧
    (∀ f : Fringe, |f.offset| ≤ 2 ^ 53 → f.offsetIn .nyquist = roundAway ((f.offset : Rat) / 2)) ∧
    (∀ (s : FringeSearch) (spectrum : Spectrum) (f : Fringe), s.channels ≤ 2 ^ 53 →
      s.fringe spectrum = .ok f → f.offsetIn .nyquist = roundAway ((f.offset : Rat) / 2)) ∧
    (∀ f g : Fringe, g.offset = -f.offset → g.offsetIn .nyquist = -f.offsetIn .nyquist) ∧
    (∀ f g : Fringe, f.offset ≤ g.offset → f.offsetIn .nyquist ≤ g.offsetIn .nyquist) ∧
    ∀ (o : Int64) (f : Fringe), f.offset = o.toInt →
      ∃ r, halfOffset? o = some r ∧ r.toInt = f.offsetIn .nyquist := by
  refine ⟨fun o ho => ?_, fun f hf => ?_, fun s spectrum f hs hf => ?_, fun f g hfg => ?_,
    fun f g hfg => ?_, fun o f hf => ?_⟩
  · rw [Double.value?_ofInt64, Double.value?_ofInt64_half, Rounding.nearest_of_abs_le ho]
    exact ⟨rfl, rfl⟩
  · exact halfOffset_of_abs_le hf
  · obtain ⟨hleast, hmost⟩ := FringeSearch.offset_of_fringe hf
    exact halfOffset_of_abs_le (abs_le.mpr ⟨by omega, by omega⟩)
  · rw [Fringe.offsetIn, Fringe.offsetIn, hfg]
    exact halfOffset_neg f.offset
  · exact halfOffset_mono hfg
  · rw [Fringe.offsetIn, hf]
    exact halfOffset?_eq o

/-- Five lags back are three samples back, a peak two lags back is one sample back, the offsets
`2 ^ 53 + 1` and `2 ^ 53` share a double, and the least machine integer is halved as well. -/
theorem Fringe.offsetIn_nyquist_at_ends :
    let peak (offset : Int) : Fringe := ⟨1, 10, offset⟩
    let one : Sample := ⟨⟨0x3F800000⟩, .zero⟩
    let transform : Transform :=
      ⟨fun samples => (List.range samples.length).map fun lag => if lag % 2 = 0 then 2 else 0,
        by simp⟩
    let s : FringeSearch := ⟨2, by decide, 0.05, transform⟩
    (peak (-5)).offsetIn .nyquist = roundAway (((-5 : Int) : Rat) / 2) ∧
      (peak (-5)).offsetIn .nyquist = -3 ∧
      (∃ f, s.fringe [one, one, one] = .ok f ∧ f.offset = -2 ∧
        f.offsetIn .nyquist = roundAway ((f.offset : Rat) / 2)) ∧
      (peak (-(2 ^ 53 + 1))).offsetIn .nyquist = -(peak (2 ^ 53 + 1)).offsetIn .nyquist ∧
      (peak (2 ^ 53 + 1)).offsetIn .nyquist = 2 ^ 52 ∧
      (peak (2 ^ 53)).offsetIn .nyquist ≤ (peak (2 ^ 53 + 1)).offsetIn .nyquist ∧
      ∃ r, halfOffset? Int64.minValue = some r ∧ r.toInt = -2 ^ 62 := by
  intro peak one transform s
  obtain ⟨-, hexact, hfringe, hsign, horder, hmachine⟩ := Fringe.offsetIn_nyquist
  have hlags : s.lagFunction [one, one, one] = .ok [0.5, 0, 0.5, 0] := by decide +kernel
  have hf : s.fringe [one, one, one] = .ok (s.fringeOfLags [0.5, 0, 0.5, 0]) := by
    rw [FringeSearch.fringe, hlags]
    rfl
  refine ⟨hexact (peak (-5)) (by decide), by decide, ⟨_, hf, by decide +kernel, ?_⟩, ?_, by decide,
    ?_, ?_⟩
  · exact hfringe s [one, one, one] _ (by decide) hf
  · exact hsign (peak (2 ^ 53 + 1)) (peak (-(2 ^ 53 + 1))) rfl
  · exact horder (peak (2 ^ 53)) (peak (2 ^ 53 + 1)) (by decide)
  · obtain ⟨r, hr, hvalue⟩ := hmachine Int64.minValue (peak (-2 ^ 63)) rfl
    exact ⟨r, hr, hvalue.trans (by decide)⟩

end Correlator
