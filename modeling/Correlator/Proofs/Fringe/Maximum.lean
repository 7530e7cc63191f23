import Correlator.Proofs.Double.Order
import Correlator.Proofs.Fringe.Lags
import Mathlib.Data.List.Induction

/-!
# The peak of the lags

`Peak.find` gives the first of the greatest lags, and it does not see a NaN: `Peak.find_first`
and `Peak.find_numbers`.  Through the turn that puts lag zero in the middle this says which lag
of the transform a fringe is.
-/

namespace Correlator

namespace Double

variable {x y z : Float}

theorem lt_trans (h : x < y) (h' : y < z) : x < z := by
  rw [lt_iff_place] at h h' ⊢
  exact ⟨h.1, h'.2.1, h.2.2.trans h'.2.2⟩

/-- What is not above a number lies below everything that is. -/
theorem lt_of_not_lt_of_lt (hx : x.isNaN = false) (h : ¬ y < x) (h' : y < z) : x < z := by
  rw [lt_iff_place] at h h' ⊢
  have hle : place x ≤ place y := not_lt.mp fun hlt => h ⟨h'.1, hx, hlt⟩
  exact ⟨hx, h'.2.1, hle.trans_lt h'.2.2⟩

theorem not_lt_self : ¬ x < x := fun h => lt_irrefl _ (lt_iff_place.mp h).2.2

theorem isNaN_of_lt (h : x < y) : y.isNaN = false := (lt_iff_place.mp h).2.1

end Double

namespace Peak

variable {floor : Float} {values : List Float}

/-- One value more. -/
def next (best : Peak Float) (entry : Float × Nat) : Peak Float :=
  if best.height < entry.1 then ⟨entry.2, entry.1⟩ else best

theorem find_concat (floor : Float) (values : List Float) (v : Float) :
    find floor (values ++ [v]) = (find floor values).next (v, values.length) := by
  rw [find, List.zipIdx_append, List.foldl_append, Nat.zero_add]
  rfl

/-- The first of the greatest values, of those that are numbers. -/
structure IsFirst (values : List Float) (p : Peak Float) : Prop where
  found : values[p.index]? = some p.height
  number : p.height.isNaN = false
  before : ∀ i v, i < p.index → values[i]? = some v → v.isNaN = false → v < p.height
  after : ∀ i v, p.index < i → values[i]? = some v → ¬ p.height < v

/-- A greater value is the first of its kind. -/
theorem isFirst_concat_of_lt {p : Peak Float} {v : Float}
    (h : p.IsFirst values ∨ ∀ u ∈ values, u.isNaN = true) (hlt : p.height < v) :
    IsFirst (values ++ [v]) ⟨values.length, v⟩ where
  found := List.getElem?_concat_length
  number := Double.isNaN_of_lt hlt
  before i u hi hu hnumber := by
    rw [List.getElem?_append_left hi] at hu
    rcases h with h | h
    · rcases Nat.lt_trichotomy i p.index with hbefore | rfl | hafter
      · exact Double.lt_trans (h.before i u hbefore hu hnumber) hlt
      · rw [h.found] at hu
        exact Option.some.inj hu ▸ hlt
      · exact Double.lt_of_not_lt_of_lt hnumber (h.after i u hafter hu) hlt
    · rw [h u (List.mem_of_getElem? hu)] at hnumber
      cases hnumber
  after i u hi hu := by
    rw [List.getElem?_eq_none (by rw [List.length_append]; exact hi)] at hu
    cases hu

theorem IsFirst.concat {p : Peak Float} {v : Float} (h : p.IsFirst values)
    (hlt : ¬ p.height < v) : p.IsFirst (values ++ [v]) := by
  have hindex : p.index < values.length := (List.getElem?_eq_some_iff.mp h.found).1
  refine { h with found := ?_, before := ?_, after := ?_ }
  · rw [List.getElem?_append_left hindex]
    exact h.found
  · intro i u hi hu
    rw [List.getElem?_append_left (hi.trans hindex)] at hu
    exact h.before i u hi hu
  · intro i u hi hu
    rcases Nat.lt_or_ge i values.length with hold | hnew
    · rw [List.getElem?_append_left hold] at hu
      exact h.after i u hi hu
    · rw [List.getElem?_append_right hnew] at hu
      rw [List.mem_singleton.mp (List.mem_of_getElem? hu)]
      exact hlt

/-- A search finds the first of the greatest values, or it has met no number. -/
theorem find_first (hfloor : ∀ v ∈ values, v.isNaN = false → floor < v) :
    (find floor values).IsFirst values ∨
      find floor values = ⟨0, floor⟩ ∧ ∀ v ∈ values, v.isNaN = true := by
  induction values using List.reverseRecOn with
  | nil => exact .inr ⟨rfl, fun v hv => nomatch hv⟩
  | append_singleton values v ih =>
    have hrest := ih fun u hu => hfloor u (List.mem_append_left _ hu)
    rw [find_concat, next]
    by_cases hlt : (find floor values).height < v
    · rw [if_pos hlt]
      exact .inl (isFirst_concat_of_lt (hrest.imp_right And.right) hlt)
    · rw [if_neg hlt]
      rcases hrest with hfirst | ⟨hnone, hnan⟩
      · exact .inl (hfirst.concat hlt)
      · refine .inr ⟨hnone, List.forall_mem_append.mpr ⟨hnan, List.forall_mem_singleton.mpr ?_⟩⟩
        rw [hnone] at hlt
        by_contra hnumber
        exact hlt (hfloor v (by simp) (Bool.eq_false_iff.mpr hnumber))

/-- The numbers among some values, with the places that they had. -/
def numbers (values : List Float) : List (Float × Nat) :=
  values.zipIdx.filter fun entry => !entry.1.isNaN

theorem mem_numbers {v : Float} {index : Nat} :
    (v, index) ∈ numbers values ↔ values[index]? = some v ∧ v.isNaN = false := by
  rw [numbers, List.mem_filter, List.mem_zipIdx_iff_getElem?, Bool.not_eq_true']

theorem numbers_concat (values : List Float) (v : Float) :
    numbers (values ++ [v])
      = numbers values ++ if v.isNaN then [] else [(v, values.length)] := by
  rw [numbers, List.zipIdx_append, List.filter_append, Nat.zero_add]
  refine congrArg (numbers values ++ ·) ?_
  rw [List.zipIdx_singleton, List.filter_singleton]
  cases v.isNaN
  · rfl
  · rfl

/-- Searching only the numbers gives the same peak, at its place among the numbers. -/
theorem find_numbers (hfloor : ∀ v ∈ values, v.isNaN = false → floor < v) :
    let p := find floor values
    let q := find floor ((numbers values).map Prod.fst)
    p.height = q.height ∧
      (numbers values ≠ [] → (numbers values)[q.index]? = some (p.height, p.index)) := by
  induction values using List.reverseRecOn with
  | nil => exact ⟨rfl, fun h => absurd rfl h⟩
  | append_singleton values v ih =>
    obtain ⟨hheight, hplace⟩ := ih fun u hu => hfloor u (List.mem_append_left _ hu)
    dsimp only at hheight hplace ⊢
    rw [numbers_concat, find_concat]
    cases hnan : v.isNaN with
    | true =>
      have hlt : ¬ (find floor values).height < v := fun hlt =>
        Bool.false_ne_true ((Double.isNaN_of_lt hlt).symm.trans hnan)
      rw [if_pos rfl, List.append_nil, next, if_neg hlt]
      exact ⟨hheight, hplace⟩
    | false =>
      rw [if_neg Bool.false_ne_true, List.map_append, List.map_singleton, find_concat, next, next,
        ← hheight]
      by_cases hlt : (find floor values).height < v
      · rw [if_pos hlt, if_pos hlt, List.length_map]
        exact ⟨rfl, fun _ => List.getElem?_concat_length⟩
      · rw [if_neg hlt, if_neg hlt]
        refine ⟨hheight, fun _ => ?_⟩
        have hsome : numbers values ≠ [] := by
          intro hnone
          rw [hheight, hnone] at hlt
          exact hlt (hfloor v (by simp) hnan)
        have hfound := hplace hsome
        rw [List.getElem?_append_left (List.getElem?_eq_some_iff.mp hfound).1]
        exact hfound

end Peak

namespace FringeSearch

variable {s : FringeSearch} {spectrum : Spectrum} {lags : List Float}

theorem minus_infinity_lt_lag (hsamples : spectrum.length = s.channels + 1)
    (hlags : s.lagFunction spectrum = .ok lags) :
    ∀ v ∈ lags, v.isNaN = false → -1 / 0 < v := by
  intro v hv hnumber
  rw [lagFunction_eq hsamples] at hlags
  rw [← Except.ok.inj hlags] at hv
  obtain ⟨raw, -, rfl⟩ := List.mem_map.mp hv
  exact Double.minus_infinity_lt_abs hnumber

/-- A raw lag is found in the lag function, at its place as seen from lag zero. -/
theorem getElem?_of_raw (hsamples : spectrum.length = s.channels + 1)
    (hlags : s.lagFunction spectrum = .ok lags) {raw : Nat} {v : Float}
    (hv : (s.rawLags spectrum)[raw]? = some v) :
    ∃ index : Nat, (index : Int) = Int.bmod raw s.lagCount + s.channels ∧
      lags[index]? = some (s.magnitude v) := by
  have hraw : raw < s.lagCount :=
    length_rawLags hsamples ▸ (List.getElem?_eq_some_iff.mp hv).1
  refine ⟨(raw + s.channels) % s.lagCount, bmod_lagCount hraw, ?_⟩
  have hturned := getElem?_lagFunction hsamples hlags
    (Nat.mod_lt (raw + s.channels) (Nat.zero_lt_of_lt hraw))
  rw [hturned, turn_twice hraw, hv]
  rfl

/-- The first of the greatest lags is the raw lag whose place, as seen from lag zero, is the
least among the greatest. -/
theorem exists_raw_of_first (hsamples : spectrum.length = s.channels + 1)
    (hlags : s.lagFunction spectrum = .ok lags) (hnumbers : ∀ v ∈ lags, v.isNaN = false)
    {p : Peak Float} (hfirst : p.IsFirst lags) :
    ∃ (raw : Nat) (v : Float), (s.rawLags spectrum)[raw]? = some v ∧ s.magnitude v = p.height ∧
      Int.bmod raw s.lagCount = p.index - s.channels ∧
      ∀ (raw' : Nat) (v' : Float), (s.rawLags spectrum)[raw']? = some v' →
        ¬ p.height < s.magnitude v' ∧
        (Int.bmod raw' s.lagCount < p.index - s.channels → s.magnitude v' < p.height) := by
  have hindex : p.index < s.lagCount :=
    length_of_lagFunction hlags ▸ (List.getElem?_eq_some_iff.mp hfirst.found).1
  have hfound := hfirst.found
  rw [getElem?_lagFunction hsamples hlags hindex, Option.map_eq_some_iff] at hfound
  obtain ⟨v, hv, hheight⟩ := hfound
  have hplace := bmod_lagCount (Nat.mod_lt (p.index + s.channels) (Nat.zero_lt_of_lt hindex))
  rw [turn_twice hindex] at hplace
  refine ⟨_, v, hv, hheight, by omega, fun raw' v' hv' => ?_⟩
  obtain ⟨index', hindex', hfound'⟩ := getElem?_of_raw hsamples hlags hv'
  have hnumber := hnumbers _ (List.mem_of_getElem? hfound')
  refine ⟨?_, fun hless => hfirst.before index' _ (by omega) hfound' hnumber⟩
  rcases Nat.lt_trichotomy index' p.index with hbefore | hsame | hafter
  · intro hlt
    exact Double.not_lt_self (Double.lt_trans hlt (hfirst.before _ _ hbefore hfound' hnumber))
  · rw [hsame, hfirst.found] at hfound'
    rw [← Option.some.inj hfound']
    exact Double.not_lt_self
  · exact hfirst.after _ _ hafter hfound'

theorem fringe_eq (hlags : s.lagFunction spectrum = .ok lags) :
    s.fringe spectrum = .ok (s.fringeOfLags lags) := by
  rw [FringeSearch.fringe, hlags]
  rfl

/-- The fringe of a spectrum is the first of the greatest lags.  It is the raw lag of the
transform that comes first among the greatest as seen from lag zero, the most negative offset
first.  A NaN among the lags is never the peak, and the others are searched as if it was not
there; where nothing else is there, the search ends where it began. -/
theorem fringe_is_first_maximum (s : FringeSearch) {spectrum : Spectrum}
    (hsamples : spectrum.length = s.channels + 1) :
    ∃ lags fringe, s.lagFunction spectrum = .ok lags ∧ s.fringe spectrum = .ok fringe ∧
      lags.length = 2 * s.channels ∧
      (∀ index < 2 * s.channels, lags[index]?
        = ((s.rawLags spectrum)[(index + s.channels) % (2 * s.channels)]?).map s.magnitude) ∧
      -(s.channels : Int) ≤ fringe.offset ∧ fringe.offset ≤ s.channels - 1 ∧
      ∃ index : Nat, (index : Int) = fringe.offset + s.channels ∧
        ((∀ v ∈ lags, v.isNaN = false) →
          lags[index]? = some fringe.amplitude ∧
          (∀ i v, i < index → lags[i]? = some v → v < fringe.amplitude) ∧
          (∀ i v, index < i → lags[i]? = some v → ¬ fringe.amplitude < v) ∧
          ∃ (raw : Nat) (v : Float), (s.rawLags spectrum)[raw]? = some v ∧
            s.magnitude v = fringe.amplitude ∧
            Int.bmod raw (2 * s.channels) = fringe.offset ∧
            ∀ (raw' : Nat) (v' : Float), (s.rawLags spectrum)[raw']? = some v' →
              ¬ fringe.amplitude < s.magnitude v' ∧
              (Int.bmod raw' (2 * s.channels) < fringe.offset →
                s.magnitude v' < fringe.amplitude)) ∧
        fringe.amplitude.isNaN = false ∧
        let numbers := Peak.numbers lags
        let among := Peak.find (-1 / 0) (numbers.map Prod.fst)
        fringe.amplitude = among.height ∧
          (numbers ≠ [] → numbers[among.index]? = some (fringe.amplitude, index)) ∧
          (numbers = [] → fringe.amplitude = -1 / 0 ∧ index = 0) := by
  have hlags := lagFunction_eq hsamples
  have hindex := @getElem?_lagFunction s spectrum _ hsamples hlags
  have hfringe := fringe_eq hlags
  obtain ⟨hleast, hmost⟩ := offset_of_fringe hfringe
  have hlength := length_of_lagFunction hlags
  have hfloor := minus_infinity_lt_lag hsamples hlags
  have hraw := @exists_raw_of_first s spectrum _ hsamples hlags
  generalize ((s.rawLags spectrum).rotate s.channels).map s.magnitude = lags
    at hlags hindex hfringe hleast hmost hlength hfloor hraw
  have hfirst := Peak.find_first hfloor
  obtain ⟨hheight, hplace⟩ := Peak.find_numbers hfloor
  have hoffset : (s.fringeOfLags lags).offset = (Peak.find (-1 / 0) lags).index - s.channels := rfl
  refine ⟨lags, _, hlags, hfringe, hlength, fun index h => hindex h, hleast, hmost,
    (Peak.find (-1 / 0) lags).index, by omega, fun hnumbers => ?_, ?_, hheight, hplace, ?_⟩
  · rcases hfirst with hfirst | ⟨-, hnan⟩
    · exact ⟨hfirst.found,
        fun i v hi hv => hfirst.before i v hi hv (hnumbers v (List.mem_of_getElem? hv)),
        hfirst.after, hraw hnumbers hfirst⟩
    · have hpos := s.channels_pos
      obtain ⟨v, hv⟩ : ∃ v, v ∈ lags :=
        List.exists_mem_of_length_pos (by rw [hlength, lagCount]; omega)
      exact absurd ((hnumbers v hv).symm.trans (hnan v hv)) Bool.false_ne_true
  · show (Peak.find (-1 / 0) lags).height.isNaN = false
    rcases hfirst with hfirst | ⟨hnone, -⟩
    · exact hfirst.number
    · rw [hnone]
      decide
  · intro hnone
    rw [hnone] at hheight
    refine ⟨hheight, ?_⟩
    rcases hfirst with hfirst | ⟨hstart, -⟩
    · have hmem : ((Peak.find (-1 / 0) lags).height, (Peak.find (-1 / 0) lags).index)
          ∈ Peak.numbers lags := Peak.mem_numbers.mpr ⟨hfirst.found, hfirst.number⟩
      rw [hnone] at hmem
      cases hmem
    · rw [hstart]

/-- Two lags are the greatest, at the offsets -2 and 0, and the fringe is the first of them.
The transform of this spectrum is 2, 0, 2, 0. -/
theorem fringe_of_equal_maxima :
    let one : Sample := ⟨⟨0x3F800000⟩, .zero⟩
    let spectrum : Spectrum := [one, ⟨.zero, .zero⟩, one]
    let transform : Transform :=
      ⟨fun samples => (List.range samples.length).map fun lag => if lag % 2 = 0 then 2 else 0,
        by simp⟩
    let s : FringeSearch := ⟨2, by decide, 0.05, transform⟩
    spectrum.length = s.channels + 1 ∧ s.lagFunction spectrum = .ok [0.5, 0, 0.5, 0] ∧
      ∃ fringe, s.fringe spectrum = .ok fringe ∧ fringe.offset = -2 ∧ fringe.amplitude = 0.5 ∧
        ∀ (raw : Nat) (v : Float), ([2, 0, 2, 0] : List Float)[raw]? = some v →
          ¬ fringe.amplitude < s.magnitude v := by
  intro one spectrum transform s
  have hlags : s.lagFunction spectrum = .ok [0.5, 0, 0.5, 0] := by decide +kernel
  obtain ⟨lags, fringe, hlags', hfringe, -, -, -, -, index, hindex, hfirst, -⟩ :=
    @fringe_is_first_maximum s spectrum rfl
  obtain rfl := Except.ok.inj (hlags.symm.trans hlags')
  obtain ⟨hfound, -, -, raw, v, -, -, -, hraw⟩ := hfirst (by decide)
  obtain rfl := Except.ok.inj (hfringe.symm.trans (fringe_eq hlags))
  have hrawLags : s.rawLags spectrum = [2, 0, 2, 0] := by decide +kernel
  rw [hrawLags] at hraw
  refine ⟨rfl, hlags, _, hfringe, ?_, ?_, fun raw' v' hv' => (hraw raw' v' hv').1⟩
  · decide +kernel
  · decide +kernel

end FringeSearch
end Correlator
