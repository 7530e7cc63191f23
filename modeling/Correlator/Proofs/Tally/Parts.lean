import Correlator.Proofs.Tally.Agreement

/-!
# Tallies in part

A tally without what came of auto-correlations, and a tally without the signal to noise ratios.
Filing in the whole comes to filing in the part, or to nothing at all, so the relations
between a part and the whole, or between two wholes with the same part, last.
-/

namespace Correlator

namespace Groups

variable {α β : Type} {groups : Groups StationPair α} {key : StationPair}

theorem file_of_lt (h : ∀ group ∈ groups, key < group.1) (a : α) :
    groups.file key a = (key, [a]) :: groups := by
  cases groups with
  | nil => rfl
  | cons group groups =>
    obtain ⟨k, values⟩ := group
    have hlt : key < k := h (k, values) List.mem_cons_self
    have hne : key ≠ k := by
      rintro rfl
      exact StationPair.lt_irrefl key hlt
    rw [file, if_neg hne, if_pos hlt]

/-- Filing under a key that is left out changes nothing of what is kept.  In the last case the
groups have to be in order: a key that comes first must still do so among those that are kept. -/
theorem filter_file (hgroups : groups.Ordered) (keep : StationPair → Bool) (key : StationPair)
    (a : α) :
    (groups.file key a).filter (fun group => keep group.1) =
      if keep key then file (groups.filter fun group => keep group.1) key a
      else groups.filter fun group => keep group.1 := by
  induction groups with
  | nil =>
    rw [file, List.filter_cons]
    rfl
  | cons group groups ih =>
    obtain ⟨k, values⟩ := group
    obtain ⟨hhead, htail⟩ := List.pairwise_cons.mp hgroups.ascending
    have hrest := ih ⟨htail, fun g hg => hgroups.filled g (List.mem_cons_of_mem _ hg)⟩
    rw [file]
    by_cases heq : key = k
    · subst heq
      rw [if_pos rfl, List.filter_cons, List.filter_cons]
      by_cases hkeep : keep key = true
      · rw [if_pos hkeep, if_pos hkeep, if_pos hkeep, file, if_pos rfl]
      · rw [if_neg hkeep, if_neg hkeep, if_neg hkeep]
    rw [if_neg heq]
    by_cases hlt : key < k
    · rw [if_pos hlt, List.filter_cons]
      by_cases hkeep : keep key = true
      · rw [if_pos hkeep, if_pos hkeep, file_of_lt]
        intro g hg
        rcases List.mem_cons.mp (List.mem_filter.mp hg).1 with rfl | hg
        · exact hlt
        · exact StationPair.lt_trans hlt (hhead g hg)
      · rw [if_neg hkeep, if_neg hkeep]
    · rw [if_neg hlt, List.filter_cons, List.filter_cons, hrest]
      by_cases hkeep : keep k = true
      · rw [if_pos hkeep, if_pos hkeep, file, if_neg heq, if_neg hlt]
        split <;> rfl
      · rw [if_neg hkeep, if_neg hkeep]

/-- The same groups with other values. -/
def change (f : α → β) (groups : Groups StationPair α) : Groups StationPair β :=
  groups.map fun group => (group.1, group.2.map f)

theorem change_file (f : α → β) (groups : Groups StationPair α) (key : StationPair) (a : α) :
    (groups.file key a).change f = (groups.change f).file key (f a) := by
  induction groups with
  | nil => rfl
  | cons group groups ih =>
    obtain ⟨k, values⟩ := group
    show change f (if _ then _ else _) = if _ then _ else _
    by_cases heq : key = k
    · rw [if_pos heq, if_pos heq]
      show (k, (values ++ [a]).map f) :: change f groups = _
      rw [List.map_append]
      rfl
    rw [if_neg heq, if_neg heq]
    by_cases hlt : key < k
    · rw [if_pos hlt, if_pos hlt]
      rfl
    · rw [if_neg hlt, if_neg hlt]
      exact congrArg ((k, values.map f) :: ·) ih

end Groups

def Outcome.withoutSnr : Outcome → Outcome
  | .cross fringe => .cross { fringe with snr := 0 }
  | .auto power => .auto power

def Finding.withoutSnr (f : Finding) : Finding := { f with outcome := f.outcome.withoutSnr }

namespace Tally

/-- What is left without the pairs of a station with itself. -/
def withoutAutos (t : Tally) : Tally :=
  { t with
    findings := t.findings.filter fun group => !group.1.isAuto
    skipped := t.skipped.filter fun skipped => !skipped.pair.isAuto }

def withoutSnr (t : Tally) : Tally := { t with findings := t.findings.change Finding.withoutSnr }

/-- `t` is what `u` is without the pairs of a station with itself. -/
structure LacksAutos (t u : Tally) : Prop where
  eq : t = u.withoutAutos
  ordered : u.findings.Ordered

/-- Only signal to noise ratios differ. -/
structure SameButSnr (t u : Tally) : Prop where
  eq : t.withoutSnr = u.withoutSnr

variable {t u : Tally}

theorem lacksAutos_empty (stations : Nat) : (empty stations).LacksAutos (empty stations) :=
  ⟨rfl, List.Pairwise.nil, by simp [empty]⟩

theorem lasting_lacksAutos : Lasting LacksAutos where
  clear := by
    rintro _ u ⟨rfl, -⟩
    exact ⟨rfl, List.Pairwise.nil, by simp [clear]⟩
  uvw := by
    rintro _ u station r - ⟨rfl, hordered⟩
    exact ⟨rfl, hordered⟩
  occupancy := by
    rintro _ u r - ⟨rfl, hordered⟩
    exact ⟨rfl, hordered⟩

theorem LacksAutos.addFinding (h : t.LacksAutos u) (pair : StationPair) (f : Finding) :
    (if pair.isAuto then t else t.addFinding pair f).LacksAutos (u.addFinding pair f) := by
  obtain ⟨rfl, hordered⟩ := h
  refine ⟨?_, Groups.ordered_file hordered pair f⟩
  have hfile := Groups.filter_file hordered (fun pair => !pair.isAuto) pair f
  unfold withoutAutos Tally.addFinding
  rw [hfile]
  cases pair.isAuto <;> rfl

theorem LacksAutos.addSkipped (h : t.LacksAutos u) (skipped : Skipped) :
    (if skipped.pair.isAuto then t else t.addSkipped skipped).LacksAutos
      (u.addSkipped skipped) := by
  obtain ⟨rfl, hordered⟩ := h
  refine ⟨?_, hordered⟩
  have hskipped : (u.skipped ++ [skipped]).filter (fun s => !s.pair.isAuto) =
      u.skipped.filter (fun s => !s.pair.isAuto) ++
        if skipped.pair.isAuto then [] else [skipped] := by
    rw [List.filter_append]
    cases hauto : skipped.pair.isAuto <;> simp [hauto]
  unfold withoutAutos Tally.addSkipped
  rw [hskipped]
  cases skipped.pair.isAuto
  · rfl
  · show _ = Tally.mk _ _ _ (_ ++ [])
    rw [List.append_nil]
    rfl

theorem lasting_sameButSnr : Lasting SameButSnr where
  clear := by
    intro t u h
    constructor
    show t.withoutSnr.clear = u.withoutSnr.clear
    rw [h.eq]
  uvw station r _ h := ⟨congrArg (Tally.addUvw · station r) h.eq⟩
  occupancy r _ h := ⟨congrArg (Tally.addOccupancy · r) h.eq⟩

theorem SameButSnr.addFinding (h : t.SameButSnr u) (pair : StationPair) {f g : Finding}
    (hfinding : f.withoutSnr = g.withoutSnr) :
    (t.addFinding pair f).SameButSnr (u.addFinding pair g) := by
  have hwithout : ∀ (v : Tally) (finding : Finding),
      (v.addFinding pair finding).withoutSnr = v.withoutSnr.addFinding pair finding.withoutSnr := by
    intro v finding
    unfold withoutSnr Tally.addFinding
    rw [Groups.change_file]
  constructor
  rw [hwithout, hwithout, h.eq, hfinding]

theorem SameButSnr.addSkipped (h : t.SameButSnr u) (skipped : Skipped) :
    (t.addSkipped skipped).SameButSnr (u.addSkipped skipped) :=
  ⟨congrArg (Tally.addSkipped · skipped) h.eq⟩

end Tally
end Correlator
