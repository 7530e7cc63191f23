import Correlator.Fringe.Noise
import Mathlib.Algebra.Field.Basic
import Mathlib.Data.Int.ModEq
import Mathlib.Data.List.Rotate

/-!
# The band around the peak

Turned so that the peak comes first, the lags that count as noise are one stretch, from
`guard` up to `guard` before the end: `noiseValues_perm`.  Their number and what turning or
mirroring the lags does to them is read off from that.
-/

namespace Correlator

variable {α β : Type} {lags : List α} {size peak guard : Nat}

/-- A lag in the band: on the circle it lies at most `guard` before the peak, or less than
`guard` past it. -/
def InBand (size peak guard index : Nat) : Prop :=
  ∃ d : Int, -(guard : Int) ≤ d ∧ d < guard ∧ (index : Int) ≡ peak + d [ZMOD size]

/-- How far past the peak a lag lies, going up. -/
theorem modEq_distance {index : Nat} (hpeak : peak < size) :
    (((index + size - peak) % size : Nat) : Int) ≡ index - peak [ZMOD size] := by
  rw [Int.natCast_emod, Nat.cast_sub (by omega), Nat.cast_add]
  calc ((index : Int) + size - peak) % size
      ≡ index + size - peak [ZMOD size] := Int.mod_modEq _ _
    _ = index - peak + size := by omega
    _ ≡ index - peak [ZMOD size] := Int.add_modEq_right

/-- The two bounds on the distance say that the lag is not in the band: from a distance of
the band to the one that is counted upwards it is once around the circle or not at all. -/
theorem outsideBand_iff {index : Nat} (hpeak : peak < size) :
    outsideBand size peak guard index = true ↔ ¬ InBand size peak guard index := by
  have hdistance : (((index + size - peak) % size : Nat) : Int) ≡ index - peak [ZMOD size] :=
    modEq_distance hpeak
  have hlt : (index + size - peak) % size < size := Nat.mod_lt _ (by omega)
  simp only [outsideBand, Bool.and_eq_true, decide_eq_true_eq]
  generalize (index + size - peak) % size = distance at hdistance hlt ⊢
  constructor
  · rintro ⟨hahead, hbehind⟩ ⟨d, hlow, hhigh, hindex⟩
    have hmod : (distance : Int) ≡ d [ZMOD size] := by
      refine hdistance.trans ?_
      simpa using hindex.sub_right (peak : Int)
    obtain ⟨turns, hturns⟩ := hmod.dvd
    have hout : ¬ (turns = 0 ∨ turns = -1) := by
      rintro (rfl | rfl)
      · omega
      · omega
    rcases Int.lt_or_le turns (-1) with hless | hmore
    · have := Int.mul_le_mul_of_nonneg_left (a := turns) (b := -2) (by omega)
        (Int.natCast_nonneg size)
      omega
    · have := Int.mul_le_mul_of_nonneg_left (a := 1) (b := turns) (by omega)
        (Int.natCast_nonneg size)
      omega
  · intro hout
    have hindex : (index : Int) ≡ peak + distance [ZMOD size] := by
      simpa using (hdistance.add_left (peak : Int)).symm
    constructor
    · refine Nat.le_of_not_lt fun hahead => hout ⟨distance, by omega, by omega, hindex⟩
    · refine Nat.lt_of_not_le fun hbehind => hout ⟨distance - size, by omega, by omega, ?_⟩
      refine hindex.trans (Int.modEq_iff_dvd.mpr ⟨-1, by omega⟩)

/-- Entries kept by their index, from `low` up to `high`, are a stretch of the list. -/
theorem filter_zipIdx_between (values : List α) (low high start : Nat) :
    ((values.zipIdx start).filter fun (_, i) => low ≤ i && i < high).map Prod.fst
      = (values.take (high - start)).drop (low - start) := by
  induction values generalizing start with
  | nil => simp
  | cons v values ih =>
    have hrest := ih (start + 1)
    rw [List.zipIdx_cons, List.filter_cons]
    by_cases hhigh : start < high
    · rw [show high - start = high - (start + 1) + 1 by omega, List.take_succ_cons]
      by_cases hlow : low ≤ start
      · rw [if_pos (by simp [hlow, hhigh]), List.map_cons, hrest,
          show low - start = 0 by omega, show low - (start + 1) = 0 by omega, List.drop_zero,
          List.drop_zero]
      · rw [if_neg (by simp [hlow]), hrest, show low - start = low - (start + 1) + 1 by omega,
          List.drop_succ_cons]
    · rw [if_neg (by simp [hhigh]), hrest, show high - start = 0 by omega,
        show high - (start + 1) = 0 by omega, List.take_zero, List.take_zero, List.drop_nil,
        List.drop_nil]

/- The lags are cut at the peak.  Those past it have their distance from it, and those before
it are reached once the end of the list has been passed. -/

theorem outsideBand_past {index : Nat} (hpeak : peak ≤ index) (hindex : index < size)
    (guard : Nat) :
    outsideBand size peak guard index
      = (peak + guard ≤ index && index < peak + (size - guard) : Bool) := by
  have hmod : (index + size - peak) % size = index - peak := by
    rw [show index + size - peak = index - peak + size by omega, Nat.add_mod_right,
      Nat.mod_eq_of_lt (by omega)]
  rw [Bool.eq_iff_iff]
  simp only [outsideBand, hmod, Bool.and_eq_true, decide_eq_true_eq]
  omega

theorem outsideBand_before {index : Nat} (hindex : index < peak) (hpeak : peak < size)
    (guard : Nat) :
    outsideBand size peak guard index
      = (guard - (size - peak) ≤ index && index < size - guard - (size - peak) : Bool) := by
  have hmod : (index + size - peak) % size = index + size - peak := Nat.mod_eq_of_lt (by omega)
  rw [Bool.eq_iff_iff]
  simp only [outsideBand, hmod, Bool.and_eq_true, decide_eq_true_eq]
  omega

/-- Part of the lags, on which the band leaves the indices from `low` up to `high`. -/
theorem filter_outsideBand (values : List α) (start : Nat) {low high : Nat}
    (h : ∀ i, start ≤ i → i < start + values.length →
      outsideBand size peak guard i = (low ≤ i && i < high : Bool)) :
    ((values.zipIdx start).filter fun (_, i) => outsideBand size peak guard i).map Prod.fst
      = (values.take (high - start)).drop (low - start) := by
  rw [← filter_zipIdx_between]
  refine congrArg (List.map Prod.fst) (List.filter_congr ?_)
  rintro ⟨v, i⟩ hentry
  obtain ⟨hfirst, hlast, -⟩ := List.mem_zipIdx hentry
  exact h i hfirst hlast

/-- Turned to the peak, the lags that count as noise are the stretch between the two parts of
the band. -/
theorem noiseValues_perm (hpeak : peak < lags.length) (guard : Nat) :
    (noiseValues lags peak guard).Perm
      (((lags.rotate peak).take (lags.length - guard)).drop guard) := by
  obtain ⟨before, past, rfl, rfl⟩ : ∃ before past, lags = before ++ past ∧
      before.length = peak :=
    ⟨lags.take peak, lags.drop peak, (List.take_append_drop peak lags).symm,
      List.length_take_of_le (Nat.le_of_lt hpeak)⟩
  have hlength : (before ++ past).length = before.length + past.length := List.length_append
  have hbefore := filter_outsideBand before 0 fun i _ hi =>
    outsideBand_before (by omega : i < before.length) hpeak guard
  have hpast := filter_outsideBand past before.length fun i hfirst hlast =>
    outsideBand_past hfirst (by omega : i < (before ++ past).length) guard
  rw [Nat.sub_zero, Nat.sub_zero, hlength, Nat.add_sub_cancel_left] at hbefore
  rw [hlength, Nat.add_sub_cancel_left, Nat.add_sub_cancel_left] at hpast
  rw [noiseValues, hlength, List.zipIdx_append, List.filter_append, List.map_append, hbefore,
    Nat.zero_add, hpast, List.rotate_append_length_eq, List.take_append, List.drop_append,
    List.length_take]
  by_cases hguard : guard ≤ before.length
  · rw [show min (before.length + past.length - guard) past.length = past.length by omega]
    exact List.perm_append_comm
  · rw [show before.length + past.length - guard - past.length = 0 by omega, List.take_zero,
      List.drop_nil, List.drop_nil, List.nil_append, List.append_nil]

theorem length_noiseValues (hpeak : peak < lags.length) (guard : Nat) :
    (noiseValues lags peak guard).length = lags.length - 2 * guard := by
  rw [(noiseValues_perm hpeak guard).length_eq, List.length_drop, List.length_take,
    List.length_rotate]
  omega

theorem rotateRight_eq_rotate (lags : List α) (turn : Nat) :
    lags.rotateRight turn = lags.rotate (lags.length - turn % lags.length) := by
  match lags with
  | [] => rfl
  | [v] => exact (List.rotate_singleton v _).symm
  | v :: w :: rest =>
    rw [List.rotateRight, if_neg (by simp), List.rotate_eq_drop_append_take (Nat.sub_le _ _)]

/-- A place that is turned, and turned back. -/
theorem turn_back (hsize : 0 < size) (turn place : Nat) :
    (size - turn % size + (place + turn) % size) % size = place % size := by
  refine Nat.ModEq.add_right_cancel' (turn % size) ?_
  have hback := Nat.sub_add_cancel (Nat.mod_lt turn hsize).le
  calc size - turn % size + (place + turn) % size + turn % size
      = (place + turn) % size + size := by omega
    _ ≡ place + turn [MOD size] := Nat.ModEq.trans (Nat.add_mod_right _ _) (Nat.mod_modEq _ _)
    _ ≡ place + turn % size [MOD size] := (Nat.mod_modEq turn size).symm.add_left place

/-- A peak that is turned with its lags still comes first, and so do the lags behind it. -/
theorem rotate_rotateRight (hlags : 0 < lags.length) (turn peak : Nat) :
    (lags.rotateRight turn).rotate ((peak + turn) % lags.length) = lags.rotate peak := by
  rw [rotateRight_eq_rotate, List.rotate_rotate, ← List.rotate_mod, turn_back hlags,
    List.rotate_mod]

theorem getElem?_rotateRight {index : Nat} (hindex : index < lags.length) (turn : Nat) :
    (lags.rotateRight turn)[(index + turn) % lags.length]? = lags[index]? := by
  have hpos := Nat.zero_lt_of_lt hindex
  rw [rotateRight_eq_rotate, List.getElem?_rotate (Nat.mod_lt _ hpos), Nat.add_comm _ (_ - _),
    turn_back hpos, Nat.mod_eq_of_lt hindex]

theorem noiseValues_rotateRight (hpeak : peak < lags.length) (guard turn : Nat) :
    (noiseValues (lags.rotateRight turn) ((peak + turn) % lags.length) guard).Perm
      (noiseValues lags peak guard) := by
  have hlength : (lags.rotateRight turn).length = lags.length := by
    rw [rotateRight_eq_rotate, List.length_rotate]
  have hpos : 0 < lags.length := Nat.zero_lt_of_lt hpeak
  have hplace : (peak + turn) % lags.length < (lags.rotateRight turn).length := by
    rw [hlength]
    exact Nat.mod_lt _ hpos
  have hturned := noiseValues_perm hplace guard
  rw [hlength, rotate_rotateRight hpos] at hturned
  exact hturned.trans (noiseValues_perm hpeak guard).symm

open scoped Classical in
/-- In the order of the lags, the values that count as noise are those outside the band. -/
theorem noiseValues_eq (hpeak : peak < lags.length) (guard : Nat) :
    noiseValues lags peak guard
      = ((List.finRange lags.length).filter fun i : Fin lags.length =>
          ¬ InBand lags.length peak guard i).map lags.get := by
  have hentries : lags.zipIdx = (List.finRange lags.length).map fun i => (lags.get i, i.val) :=
    List.ext_getElem (by simp) (by simp)
  rw [noiseValues, hentries, List.filter_map, List.map_map]
  refine congrArg (List.map lags.get) (List.filter_congr fun i _ => ?_)
  rw [Bool.eq_iff_iff, decide_eq_true_eq]
  exact outsideBand_iff hpeak

end Correlator
