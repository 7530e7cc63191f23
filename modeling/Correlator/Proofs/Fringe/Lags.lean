import Correlator.Fringe.Search
import Mathlib.Data.List.Rotate

/-!
# Where a fringe can lie

The lag function of `c` channels has `2 * c` values with lag zero in the middle, and the peak
is one of them: `offset_of_fringe`.
-/

namespace Correlator

/-- The peak of some values is one of them. -/
theorem Peak.index_find_lt {α : Type} [LT α] [DecidableLT α] (floor : α) {values : List α}
    (h : 0 < values.length) : (find floor values).index < values.length := by
  refine List.foldlRecOn values.zipIdx _ (motive := fun best : Peak α => best.index < values.length)
    h ?_
  rintro best hbest ⟨v, i⟩ hmem
  have hi := (List.mem_zipIdx hmem).2.1
  rw [Nat.zero_add] at hi
  dsimp only
  split
  · exact hi
  · exact hbest

namespace FringeSearch

variable {s : FringeSearch} {spectrum : Spectrum}

/-- The height of a lag: the magnitude of what the transform gives for it. -/
def magnitude (s : FringeSearch) (v : Float) : Float := (v * (1 / Float.ofNat s.lagCount)).abs

/-- What the transform gives for a spectrum, with lag zero first. -/
def rawLags (s : FringeSearch) (spectrum : Spectrum) : List Float :=
  s.transform.apply spectrum.extend

theorem length_rawLags (h : spectrum.length = s.channels + 1) :
    (s.rawLags spectrum).length = s.lagCount := by
  have hpos := s.channels_pos
  obtain ⟨first, rest, rfl⟩ : ∃ first rest, spectrum = first :: rest :=
    List.exists_cons_of_length_eq_add_one h
  have hrest : rest.length = s.channels := by simpa using h
  have hne : rest ≠ [] := List.ne_nil_of_length_pos (hrest.symm ▸ hpos)
  rw [rawLags, s.transform.length_apply, Spectrum.length_extend first rest hne, hrest, lagCount]

theorem lagFunction_of_wrong_length (h : spectrum.length ≠ s.channels + 1) :
    s.lagFunction spectrum = .error (.wrongLength (s.channels + 1) spectrum.length) := if_pos h

/-- The lags are turned so that lag zero comes to the middle. -/
theorem lagFunction_eq (h : spectrum.length = s.channels + 1) :
    s.lagFunction spectrum
      = .ok (((s.rawLags spectrum).rotate s.channels).map s.magnitude) := by
  have hlength := length_rawLags h
  rw [List.rotate_eq_drop_append_take (by rw [hlength, lagCount]; omega)]
  exact if_neg (not_not.mpr h)

theorem length_of_lagFunction {lags : List Float} (h : s.lagFunction spectrum = .ok lags) :
    lags.length = s.lagCount := by
  by_cases hsamples : spectrum.length = s.channels + 1
  · rw [lagFunction_eq hsamples] at h
    rw [← Except.ok.inj h, List.length_map, List.length_rotate, length_rawLags hsamples]
  · rw [lagFunction_of_wrong_length hsamples] at h
    cases h

theorem getElem?_lagFunction {lags : List Float} (hsamples : spectrum.length = s.channels + 1)
    (hlags : s.lagFunction spectrum = .ok lags) {index : Nat} (hindex : index < s.lagCount) :
    lags[index]?
      = ((s.rawLags spectrum)[(index + s.channels) % s.lagCount]?).map s.magnitude := by
  have hlength := length_rawLags hsamples
  rw [lagFunction_eq hsamples] at hlags
  rw [← Except.ok.inj hlags, List.getElem?_map, List.getElem?_rotate (by rw [hlength]; exact hindex),
    hlength]

/-- Half a turn and another leave a lag where it was. -/
theorem turn_twice {index : Nat} (h : index < s.lagCount) :
    ((index + s.channels) % s.lagCount + s.channels) % s.lagCount = index := by
  rw [Nat.mod_add_mod, Nat.add_assoc, ← Nat.two_mul]
  exact (Nat.add_mod_right index s.lagCount).trans (Nat.mod_eq_of_lt h)

/-- Where a raw lag has come to, seen from lag zero. -/
theorem bmod_lagCount {raw : Nat} (hraw : raw < s.lagCount) :
    (((raw + s.channels) % s.lagCount : Nat) : Int) = Int.bmod raw s.lagCount + s.channels := by
  rw [Int.bmod_def, lagCount] at *
  have hhalf : ((2 * s.channels : Nat) + 1 : Int) / 2 = s.channels := by omega
  have hsmall : (raw : Int) % (2 * s.channels : Nat) = raw := Int.emod_eq_of_lt (by omega) (by omega)
  rw [hhalf, hsmall]
  rcases Nat.lt_or_ge raw s.channels with hless | hmore
  · rw [if_pos (by omega), Nat.mod_eq_of_lt (by omega), Int.natCast_add]
  · rw [if_neg (by omega), Nat.mod_eq_sub_mod (by omega), Nat.mod_eq_of_lt (by omega)]
    omega

/-- A fringe lies no further from lag zero than the ends of the lag function. -/
theorem offset_of_fringe {fringe : Fringe} (h : s.fringe spectrum = .ok fringe) :
    -(s.channels : Int) ≤ fringe.offset ∧ fringe.offset ≤ s.channels - 1 := by
  unfold FringeSearch.fringe at h
  cases hlags : s.lagFunction spectrum with
  | error reason =>
    rw [hlags] at h
    cases h
  | ok lags =>
    rw [hlags] at h
    have hlength := length_of_lagFunction hlags
    have hpos := s.channels_pos
    have hpeak : (Peak.find (-1 / 0 : Float) lags).index < lags.length :=
      Peak.index_find_lt _ (by rw [hlength, lagCount]; omega)
    rw [← Except.ok.inj h, fringeOfLags]
    dsimp only
    rw [hlength, lagCount] at hpeak
    omega

end FringeSearch
end Correlator
