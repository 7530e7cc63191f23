import Correlator.Proofs.Fringe.Noise
import Mathlib.Algebra.Field.Rat
import Mathlib.Data.Multiset.Basic

/-!
# The band and its mirror image

The band takes one lag more before the peak than past it, so it is its own mirror image about
half a lag before the peak and not about the peak: `outsideBand_mirror`.  Lags that are mirrored
about their peak lose one noise value and gain another, those at the distance of the guard.
-/

namespace Correlator

variable {α : Type} {lags : List α} {size peak guard : Nat}

/-- The index of a place on a circle of `size` lags. -/
def around (size : Nat) (place : Int) : Nat := (place % size).toNat

theorem cast_around (hsize : 0 < size) (place : Int) : (around size place : Int) = place % size :=
  Int.toNat_of_nonneg (Int.emod_nonneg place (by omega))

theorem around_lt (hsize : 0 < size) (place : Int) : around size place < size := by
  have hlt := Int.emod_lt_of_pos place (by omega : (0 : Int) < size)
  have hcast := cast_around hsize place
  omega

theorem around_congr {place place' : Int} (h : place ≡ place' [ZMOD size]) :
    around size place = around size place' := congrArg Int.toNat h

theorem around_modEq (hsize : 0 < size) (place : Int) :
    (around size place : Int) ≡ place [ZMOD size] :=
  (cast_around hsize place).symm ▸ Int.mod_modEq place size

/-- The lags mirrored about the peak: what lay past it lies as far before it. -/
def mirrored (lags : List α) (peak : Nat) : List α :=
  List.ofFn fun i : Fin lags.length =>
    lags.get ⟨around lags.length (2 * peak - i), around_lt (Fin.pos i) _⟩

/-- A lag is told by how far past the peak it lies. -/
theorem outsideBand_around (hpeak : peak < size) (guard : Nat) (d : Int) :
    outsideBand size peak guard (around size (peak + d)) = true
      ↔ guard ≤ d % size ∧ d % size < size - guard := by
  have hsize := Nat.zero_lt_of_lt hpeak
  have hdistance : (((around size (peak + d) + size - peak) % size : Nat) : Int) = d % size := by
    have hplace := (modEq_distance hpeak).trans
      ((around_modEq hsize (peak + d)).sub_right (peak : Int))
    rwa [add_sub_cancel_left, Int.ModEq, Int.emod_eq_of_lt (Int.natCast_nonneg _)
      (Int.ofNat_lt.mpr (Nat.mod_lt _ hsize))] at hplace
  simp only [outsideBand, Bool.and_eq_true, decide_eq_true_eq]
  omega

/- Of two places whose distances from the peak add up to `sum`, the remainders add up to the
remainder of `sum`, or to that and once around the circle. -/
theorem emod_add_emod (hsize : 0 < size) {d d' sum : Int} (h : d + d' = sum) :
    d % size + d' % size = sum % size ∨ d % size + d' % size = sum % size + size := by
  have hpos : (0 : Int) < size := by omega
  have hd := Int.emod_nonneg d hpos.ne'
  have hd' := Int.emod_nonneg d' hpos.ne'
  have hlt := Int.emod_lt_of_pos d hpos
  have hlt' := Int.emod_lt_of_pos d' hpos
  have hsum : (d % size + d' % size) % size = sum % size := by rw [← Int.add_emod, h]
  rcases Int.lt_or_le (d % size + d' % size) size with hless | hmore
  · rw [Int.emod_eq_of_lt (by omega) hless] at hsum
    exact .inl hsum
  · rw [← Int.sub_emod_right, Int.emod_eq_of_lt (by omega) (by omega)] at hsum
    omega

/-- The band is its own mirror image about the place half a lag before the peak. -/
theorem outsideBand_mirror_half (hpeak : peak < size) (guard : Nat) (d : Int) :
    outsideBand size peak guard (around size (peak + d))
      = outsideBand size peak guard (around size (peak + (-1 - d))) := by
  have hsize := Nat.zero_lt_of_lt hpeak
  have hpos : (0 : Int) < size := by omega
  have hlt := Int.emod_lt_of_pos d hpos
  have hlt' := Int.emod_lt_of_pos (-1 - d) hpos
  have hsum := emod_add_emod hsize (show d + (-1 - d) = -1 by omega)
  have hlast : (-1 : Int) % size = size - 1 := by
    rw [← Int.add_emod_right, Int.emod_eq_of_lt (by omega) (by omega)]
    omega
  rw [Bool.eq_iff_iff, outsideBand_around hpeak, outsideBand_around hpeak]
  omega

/-- A lag and its mirror image about the peak count alike, but for the two at the distance of
the guard, of which only the one past the peak counts. -/
theorem outsideBand_mirror (hpeak : peak < size) (guard : Nat) (d : Int) :
    outsideBand size peak guard (around size (peak + d))
        = outsideBand size peak guard (around size (peak - d)) ↔
      ¬ (0 < guard ∧ 2 * guard < size ∧ (d ≡ guard [ZMOD size] ∨ d ≡ -guard [ZMOD size])) := by
  have hsize := Nat.zero_lt_of_lt hpeak
  have hpos : (0 : Int) < size := by omega
  have hnonneg := Int.emod_nonneg d hpos.ne'
  have hlt := Int.emod_lt_of_pos d hpos
  have hnonneg' := Int.emod_nonneg (-d) hpos.ne'
  have hlt' := Int.emod_lt_of_pos (-d) hpos
  have hsum := emod_add_emod hsize (show d + -d = 0 by omega)
  rw [Int.zero_emod] at hsum
  rw [Bool.eq_iff_iff, outsideBand_around hpeak, show (peak : Int) - d = peak + -d by omega,
    outsideBand_around hpeak, Int.ModEq, Int.ModEq]
  by_cases hguard : 0 < guard ∧ 2 * guard < size
  · have hahead : (guard : Int) % size = guard := Int.emod_eq_of_lt (by omega) (by omega)
    have hbehind : -(guard : Int) % size = size - guard := by
      rw [← Int.add_emod_right, Int.emod_eq_of_lt (by omega) (by omega)]
      omega
    omega
  · omega

theorem length_mirrored (lags : List α) (peak : Nat) :
    (mirrored lags peak).length = lags.length := List.length_ofFn

theorem getElem?_mirrored (hlags : 0 < lags.length) (peak : Nat) (d : Int) :
    (mirrored lags peak)[around lags.length (peak + d)]? = lags[around lags.length (peak - d)]? := by
  have hindex := around_lt hlags (peak + d)
  have hback : (2 * peak - around lags.length (peak + d) : Int) ≡ peak - d [ZMOD lags.length] := by
    have hplace := (around_modEq hlags (peak + d)).sub_left (2 * peak : Int)
    rwa [show (2 * peak - (peak + d) : Int) = peak - d by omega] at hplace
  rw [mirrored, List.getElem?_ofFn, dif_pos hindex, List.get_eq_getElem, ← around_congr hback,
    List.getElem?_eq_getElem (around_lt hlags _)]

theorem getElem?_rotate_around {k : Nat} (hk : k < lags.length) (peak : Nat) :
    (lags.rotate peak)[k]? = lags[around lags.length (peak + k)]? := by
  rw [List.getElem?_rotate hk, around, Nat.add_comm]
  rfl

/- The values that count as noise, from the peak up: the one at the distance of the guard comes
first.  Mirrored, the others follow in reverse, and the first is the one from the other side. -/

theorem stretch_rotate (hlags : 2 * guard < lags.length) {first : α} (peak : Nat)
    (hfirst : lags[around lags.length (peak + guard)]? = some first) :
    ((lags.rotate peak).take (lags.length - guard)).drop guard
      = first :: ((lags.rotate peak).take (lags.length - guard)).drop (guard + 1) := by
  have hrotate := getElem?_rotate_around (by omega : guard < lags.length) peak
  rw [hfirst] at hrotate
  refine List.ext_getElem? fun k => ?_
  cases k with
  | zero =>
    rw [List.getElem?_drop, List.getElem?_take, if_pos (by omega)]
    exact hrotate
  | succ k =>
    rw [List.getElem?_cons_succ, List.getElem?_drop, List.getElem?_drop,
      Nat.add_right_comm, Nat.add_assoc]

theorem stretch_mirrored (hlags : 2 * guard < lags.length) {last : α} (peak : Nat)
    (hlast : lags[around lags.length (peak - guard)]? = some last) :
    (((mirrored lags peak).rotate peak).take (lags.length - guard)).drop guard
      = last :: (((lags.rotate peak).take (lags.length - guard)).drop (guard + 1)).reverse := by
  have hmirror : ∀ k < lags.length, ((mirrored lags peak).rotate peak)[k]?
      = lags[around lags.length (peak - k)]? := by
    intro k hk
    have hk' : k < (mirrored lags peak).length := by rwa [length_mirrored]
    rw [getElem?_rotate_around hk' peak, length_mirrored, getElem?_mirrored (by omega)]
  have hlength : (((lags.rotate peak).take (lags.length - guard)).drop (guard + 1)).length
      = lags.length - 2 * guard - 1 := by
    rw [List.length_drop, List.length_take, List.length_rotate]
    omega
  refine List.ext_getElem? fun k => ?_
  rw [List.getElem?_drop, List.getElem?_take]
  cases k with
  | zero =>
    rw [if_pos (by omega), hmirror _ (by omega)]
    exact hlast
  | succ k =>
    rw [List.getElem?_cons_succ]
    by_cases hk : guard + (k + 1) < lags.length - guard
    · have hplace : guard + 1 + (lags.length - 2 * guard - 1 - 1 - k)
          = lags.length - (guard + (k + 1)) := by omega
      rw [if_pos hk, hmirror _ (by omega), List.getElem?_reverse (by omega), hlength,
        List.getElem?_drop, List.getElem?_take, hplace, if_pos (by omega),
        getElem?_rotate_around (by omega)]
      refine congrArg (lags[·]?) (around_congr (Int.modEq_iff_dvd.mpr ⟨1, ?_⟩))
      omega
    · rw [if_neg hk, List.getElem?_eq_none]
      rw [List.length_reverse]
      omega

/-- Mirrored about the peak, the lags have one other noise value: that of the lag past the
peak, at the distance of the guard, makes way for that of the lag before it. -/
theorem exists_noiseValues_mirrored (hpeak : peak < lags.length)
    (hguard : 2 * guard < lags.length) :
    ∃ first last others, lags[around lags.length (peak + guard)]? = some first ∧
      lags[around lags.length (peak - guard)]? = some last ∧
      (noiseValues lags peak guard).Perm (first :: others) ∧
      (noiseValues (mirrored lags peak) peak guard).Perm (last :: others) := by
  have hlags := Nat.zero_lt_of_lt hpeak
  have hfirst := List.getElem?_eq_getElem (around_lt hlags (peak + guard))
  have hlast := List.getElem?_eq_getElem (around_lt hlags (peak - guard))
  have hnoise := noiseValues_perm hpeak guard
  have hmirrored := noiseValues_perm ((length_mirrored lags peak).symm ▸ hpeak) guard
  rw [stretch_rotate hguard peak hfirst] at hnoise
  rw [length_mirrored, stretch_mirrored hguard peak hlast] at hmirrored
  exact ⟨_, _, _, hfirst, hlast, hnoise, hmirrored.trans ((List.reverse_perm _).cons _)⟩

theorem noiseValues_mirrored_perm_iff (hpeak : peak < lags.length) (guard : Nat) :
    (noiseValues (mirrored lags peak) peak guard).Perm (noiseValues lags peak guard) ↔
      lags.length ≤ 2 * guard ∨
        lags[around lags.length (peak + guard)]? = lags[around lags.length (peak - guard)]? := by
  rcases Nat.lt_or_ge (2 * guard) lags.length with hguard | hguard
  · obtain ⟨first, last, others, hfirst, hlast, hnoise, hmirrored⟩ :=
      exists_noiseValues_mirrored hpeak hguard
    rw [hfirst, hlast, Option.some.injEq, or_iff_right (Nat.not_le.mpr hguard),
      hmirrored.congr_left, hnoise.congr_right]
    constructor
    · intro hperm
      exact ((Multiset.cons_inj_left (others : Multiset α)).mp (Multiset.coe_eq_coe.mpr hperm)).symm
    · rintro rfl
      exact List.Perm.refl _
  · refine iff_of_true ?_ (.inl hguard)
    have hlength := length_noiseValues hpeak guard
    have hlength' := length_noiseValues ((length_mirrored lags peak).symm ▸ hpeak) guard
    rw [length_mirrored] at hlength'
    rw [List.eq_nil_of_length_eq_zero (by omega : (noiseValues lags peak guard).length = 0),
      List.eq_nil_of_length_eq_zero (hlength'.trans (by omega))]

/-- What mirroring the lags about their peak does to the noise.  The band is symmetric about
half a lag before the peak.  About the peak itself it is symmetric but for the two lags at the
distance of the guard, so the noise values stay the same exactly where these two lags are equal
or the band leaves no lag, and then so does the noise in exact arithmetic. -/
theorem Noise.measure_mirrored {K : Type} [Field K] {lags : List K} {peak : Nat}
    (hpeak : peak < lags.length) (guard : Nat) :
    let size := lags.length
    let counts (place : Int) := outsideBand size peak guard (around size place)
    let alike := size ≤ 2 * guard ∨
      lags[around size (peak + guard)]? = lags[around size (peak - guard)]?
    (∀ d : Int, counts (peak + d) = counts (peak - d) ↔
      ¬ (0 < guard ∧ 2 * guard < size ∧ (d ≡ guard [ZMOD size] ∨ d ≡ -guard [ZMOD size]))) ∧
    (∀ d : Int, counts (peak + d) = counts (peak + (-1 - d))) ∧
    (∀ d : Int, (mirrored lags peak)[around size (peak + d)]? = lags[around size (peak - d)]?) ∧
    ((noiseValues (mirrored lags peak) peak guard).Perm (noiseValues lags peak guard) ↔ alike) ∧
    (alike → measure (mirrored lags peak) peak guard = measure lags peak guard) := by
  have hperm := noiseValues_mirrored_perm_iff hpeak guard
  exact ⟨outsideBand_mirror hpeak guard, outsideBand_mirror_half hpeak guard,
    getElem?_mirrored (Nat.zero_lt_of_lt hpeak) peak, hperm,
    fun halike => ofValues_perm (hperm.mpr halike)⟩

/-- Five lags whose neighbours of the peak are equal, so that the noise stays as it is. -/
theorem Noise.measure_mirrored_of_equal_neighbours :
    let lags : List Rat := [10, 1, 2, 3, 1]
    0 < lags.length ∧ mirrored lags 0 = [10, 1, 3, 2, 1] ∧
      measure [10, 1, 3, 2, 1] 0 1 = measure lags 0 1 := by
  intro lags
  have hpeak : 0 < lags.length := by decide
  have hmirrored : mirrored lags 0 = [10, 1, 3, 2, 1] := by decide
  obtain ⟨-, -, -, -, hmeasure⟩ := measure_mirrored hpeak 1
  rw [hmirrored] at hmeasure
  exact ⟨hpeak, hmirrored, hmeasure (.inr (by decide))⟩

/-- The lag just past the peak counts as noise and the one just before it does not, so five
lags and their mirror image have different noise, and a fringe at their peak has another ratio
of signal to noise. -/
theorem band_not_symmetric :
    (¬ ∀ (size peak guard : Nat) (d : Int), peak < size →
      outsideBand size peak guard (around size (peak + d))
        = outsideBand size peak guard (around size (peak - d))) ∧
    mirrored [10, 1, 2, 3, 4] 0 = [10, 4, 3, 2, 1] ∧
    Noise.measure [10, 1, 2, 3, 4] 0 1 = (⟨2, 2, 3⟩ : Noise Rat) ∧
    Noise.measure [10, 4, 3, 2, 1] 0 1 = (⟨3, 2, 3⟩ : Noise Rat) ∧
    FringeSearch.ratio 10 (Noise.measure [10, 1, 2, 3, 4] 0 1)
      ≠ FringeSearch.ratio 10 (Noise.measure [10, 4, 3, 2, 1] 0 1) := by
  refine ⟨fun halike => ?_, by decide +kernel, by decide +kernel, by decide +kernel,
    by decide +kernel⟩
  exact absurd (halike 5 0 1 1 (by decide)) (by decide)

end Correlator
