import Correlator.Fringe.Search
import Correlator.Proofs.Fringe.Band
import Mathlib.Data.List.Perm.Basic

/-!
# The noise, step by step

`Noise.measure?` goes over the lags twice and looks at each lag anew each time.  It counts in
words of 64 bits, and a step that would leave them or divide by zero gives nothing.  The main
statement is that it always gives `Noise.measure`, which is taken of the lags outside the band
and does not change when the lags are turned.
-/

namespace Correlator

variable {α β : Type} {lags : List α} {peak guard : Nat}

namespace Word

def add? (a b : Nat) : Option Nat := if a + b < 2 ^ 64 then some (a + b) else none

def sub? (a b : Nat) : Option Nat := if b ≤ a then some (a - b) else none

def mod? (a b : Nat) : Option Nat := if b = 0 then none else some (a % b)

end Word

def outsideBand? (size peak guard index : Nat) : Option Bool := do
  let ahead ← Word.add? index size
  let distance ← Word.mod? (← Word.sub? ahead peak) size
  return guard ≤ distance && distance < size - guard

/-- A step for a lag that is outside the band. -/
def overLag? (size peak guard : Nat) (step : β → α → Option β) (result : β)
    (entry : α × Nat) : Option β := do
  if ← outsideBand? size peak guard entry.2 then step result entry.1 else return result

/-- One pass over the lags. -/
def overNoise? (lags : List α) (peak guard : Nat) (step : β → α → Option β) (start : β) :
    Option β :=
  lags.zipIdx.foldlM (overLag? lags.length peak guard step) start

theorem outsideBand?_eq {size index : Nat} (hsize : size ≤ 2 ^ 63) (hpeak : peak < size)
    (hindex : index < size) :
    outsideBand? size peak guard index = some (outsideBand size peak guard index) := by
  have hadd : Word.add? index size = some (index + size) := if_pos (by omega)
  have hsub : Word.sub? (index + size) peak = some (index + size - peak) := if_pos (by omega)
  have hmod : Word.mod? (index + size - peak) size = some ((index + size - peak) % size) :=
    if_neg (by omega)
  simp only [outsideBand?, hadd, hsub, hmod, Option.bind_eq_bind, Option.bind_some,
    Option.pure_def, outsideBand]

/-- A pass takes its steps for the values that count as noise, in their order. -/
theorem overNoise?_eq (hlags : lags.length ≤ 2 ^ 63) (hpeak : peak < lags.length)
    (step : β → α → Option β) (start : β) :
    overNoise? lags peak guard step start = (noiseValues lags peak guard).foldlM step start := by
  rw [noiseValues, List.foldlM_map, List.foldlM_filter, overNoise?]
  have hindex : ∀ entry ∈ lags.zipIdx, entry.2 < lags.length := by
    rintro ⟨v, i⟩ hentry
    have hi := (List.mem_zipIdx hentry).2.1
    omega
  -- The length in the test is that of all the lags, wherever the pass stands.
  generalize lags.length = size at hlags hpeak hindex ⊢
  generalize lags.zipIdx = entries at hindex ⊢
  induction entries generalizing start with
  | nil => rfl
  | cons entry entries ih =>
    have hentry := hindex entry List.mem_cons_self
    have hrest := fun result => ih result fun other hother =>
      hindex other (List.mem_cons_of_mem _ hother)
    rw [List.foldlM_cons, List.foldlM_cons, overLag?, outsideBand?_eq hlags hpeak hentry]
    exact bind_congr hrest

namespace Noise

/-- One value more, with the number of values so far. -/
def addUp? [Add α] (sum : α × Nat) (v : α) : Option (α × Nat) := do
  return (sum.1 + v, ← Word.add? sum.2 1)

theorem foldlM_addUp? [Add α] {values : List α} (sum : α) {count : Nat}
    (h : count + values.length < 2 ^ 64) :
    values.foldlM addUp? (sum, count) = some (values.foldl (· + ·) sum, count + values.length) := by
  induction values generalizing sum count with
  | nil => rfl
  | cons v values ih =>
    rw [List.length_cons] at h ⊢
    have hadd : Word.add? count 1 = some (count + 1) := if_pos (by omega)
    have hstep : addUp? (sum, count) v = some (sum + v, count + 1) := by
      simp only [addUp?, hadd, Option.bind_eq_bind, Option.bind_some, Option.pure_def]
    rw [List.foldlM_cons, hstep, Option.bind_eq_bind, Option.bind_some, ih _ (by omega),
      List.foldl_cons, Nat.add_assoc, Nat.add_comm 1]

variable [Zero α] [Add α] [Sub α] [Mul α] [Div α] [NatCast α]

/-- Mean, squares and number, the squares in a second pass. -/
def measure? (lags : List α) (peak guard : Nat) : Option (Noise α) := do
  let (sum, count) ← overNoise? lags peak guard addUp? (0, 0)
  let divisor := max count 1
  if divisor = 0 then none
  let mean := sum / (divisor : α)
  let squares ← overNoise? lags peak guard (fun sum v => some (sum + (v - mean) * (v - mean))) 0
  return ⟨mean, squares, count⟩

/-- Both passes meet the same values, and no step of either fails. -/
theorem measure?_eq (hlags : lags.length ≤ 2 ^ 63) (hpeak : peak < lags.length) (guard : Nat) :
    measure? lags peak guard = some (measure lags peak guard) := by
  have hcount := length_noiseValues hpeak guard
  have hdivisor : max (noiseValues lags peak guard).length 1 ≠ 0 := by omega
  unfold measure?
  rw [overNoise?_eq hlags hpeak, foldlM_addUp? _ (by omega), Nat.zero_add]
  simp only [Option.bind_eq_bind, Option.bind_some, if_neg hdivisor, overNoise?_eq hlags hpeak]
  rw [← Option.pure_def, List.foldlM_pure]
  simp only [measure, ofValues, total, List.foldl_map, Option.pure_def, Option.bind_some]

/-- Without values there is nothing to divide, and all is zero. -/
theorem ofValues_nil : (ofValues [] : Noise Float) = ⟨0, 0, 0⟩ := by decide

end Noise

theorem noiseValues_map (value : α → β) (lags : List α) (peak guard : Nat) :
    noiseValues (lags.map value) peak guard = (noiseValues lags peak guard).map value := by
  rw [noiseValues, noiseValues, List.length_map, List.zipIdx_map, List.filter_map, List.map_map,
    List.map_map]
  rfl

/- In exact arithmetic the order of the values does not matter. -/

variable {K : Type} [Field K]

theorem total_perm {values values' : List K} (h : values.Perm values') :
    total values = total values' := h.foldl_eq 0

theorem Noise.ofValues_perm {values values' : List K} (h : values.Perm values') :
    ofValues values = ofValues values' := by
  simp only [ofValues, total_perm h, h.length_eq, total_perm (h.map _)]

open scoped Classical in
/-- The noise is taken of all lags outside the band and of no others, in both passes, and no
step of them fails, whatever the guard.  (No list in memory reaches 2 ^ 63 doubles.)  A guard
that leaves no lag gives zeros.  Lags that are turned together with the peak have the same
noise: the same values as doubles, and the same mean and squares when each lag is read as an
exact number. -/
theorem Noise.measure_outside_band {lags : List Float} {peak : Nat} (hpeak : peak < lags.length)
    (guard : Nat) :
    noiseValues lags peak guard
        = ((List.finRange lags.length).filter fun i : Fin lags.length =>
            ¬ InBand lags.length peak guard i).map lags.get ∧
      (lags.length ≤ 2 ^ 63 →
        measure? lags peak guard = some (measure lags peak guard)) ∧
      (measure lags peak guard).count
        = (if 2 * guard < lags.length then lags.length - 2 * guard else 0) ∧
      ((measure lags peak guard).count = 0 → measure lags peak guard = ⟨0, 0, 0⟩) ∧
      ∀ turn,
        let turned := lags.rotateRight turn
        let place := (peak + turn) % lags.length
        (∀ i < lags.length, turned[(i + turn) % lags.length]? = lags[i]?) ∧
        (noiseValues turned place guard).Perm (noiseValues lags peak guard) ∧
        (measure turned place guard).count = (measure lags peak guard).count ∧
        ∀ {K : Type} [Field K] (value : Float → K),
          measure (turned.map value) place guard = measure (lags.map value) peak guard := by
  have hlength := length_noiseValues hpeak guard
  refine ⟨noiseValues_eq hpeak guard, fun hlags => measure?_eq hlags hpeak guard, ?_, ?_, ?_⟩
  · show (noiseValues lags peak guard).length = _
    rw [hlength]
    split <;> omega
  · intro hcount
    have hnone : noiseValues lags peak guard = [] := List.eq_nil_of_length_eq_zero hcount
    rw [measure, hnone, ofValues_nil]
  · intro turn turned place
    have hperm := noiseValues_rotateRight hpeak guard turn
    refine ⟨fun i hi => getElem?_rotateRight hi turn, hperm, hperm.length_eq, fun value => ?_⟩
    rw [measure, measure, noiseValues_map, noiseValues_map]
    exact ofValues_perm (hperm.map value)

/-- Five lags around their peak.  The one just before the peak and the peak itself make the
band, wherever the five begin. -/
theorem Noise.measure_of_turned_lags :
    let lags : List Float := [5, 1, 9, 2, 4]
    let turned : List Float := [1, 9, 2, 4, 5]
    2 < lags.length ∧ measure? lags 2 1 = some (measure lags 2 1) ∧
      (measure lags 2 1).count = 3 ∧ (noiseValues turned 1 1).Perm [5, 2, 4] := by
  intro lags turned
  have hpeak : 2 < lags.length := by decide
  obtain ⟨-, hsteps, hcount, -, hturn⟩ := measure_outside_band hpeak 1
  have hvalues : noiseValues lags 2 1 = [5, 2, 4] := by decide
  have hturned : lags.rotateRight 4 = turned := by decide
  have hplace : (2 + 4) % lags.length = 1 := by decide
  obtain ⟨-, hperm, -⟩ := hturn 4
  rw [hturned, hplace, hvalues] at hperm
  exact ⟨hpeak, hsteps (by decide), hcount, hperm⟩

end Correlator
