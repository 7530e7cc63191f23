import Correlator.Proofs.Fringe.Lags
import Correlator.Proofs.Tally.Agreement
import Correlator.Proofs.Tally.Contents

/-!
# Tallies as decoding leaves them

Whatever the bytes are, a tally that a decoder has filled, to the end of a slice or not, is
`Sound`: each record is where it belongs, and each is one that can have been read.  Clearing
a tally and filing in it, record by record, keep it so.
-/

namespace Correlator

namespace Slots

variable {α : Type} {slots : Slots α} {index : Nat} {a : α} {P : Nat → α → Prop}

theorem forall_file (h : ∀ index, ∀ b ∈ slots.under index, P index b) (ha : P index a) :
    ∀ other, ∀ b ∈ (slots.file index a).under other, P other b := by
  intro other b hb
  rw [under_file] at hb
  by_cases hsame : other = index
  · rw [if_pos hsame] at hb
    rcases List.mem_append.mp hb with hb | hb
    · exact h other b hb
    · rw [List.mem_singleton.mp hb, hsame]
      exact ha
  · rw [if_neg hsame] at hb
    exact h other b hb

theorem forall_clear (slots : Slots α) (P : Nat → α → Prop) :
    ∀ index, ∀ b ∈ slots.clear.under index, P index b := by
  intro index b hb
  rw [clear_eq_empty, under_empty] at hb
  cases hb

end Slots

namespace Groups

variable {α : Type} {groups : Groups StationPair α} {key : StationPair} {a : α}

/-- Filing starts a group or makes one longer. -/
theorem forall_file {P : StationPair → List α → Prop}
    (h : ∀ group ∈ groups, P group.1 group.2) (hnew : P key [a])
    (hmore : ∀ values, P key values → P key (values ++ [a])) :
    ∀ group ∈ groups.file key a, P group.1 group.2 := by
  fun_induction file groups key a with
  | case1 key a => simpa using hnew
  | case2 values groups key a =>
    have hvalues := h _ List.mem_cons_self
    intro group hgroup
    rcases List.mem_cons.mp hgroup with rfl | hgroup
    · exact hmore values hvalues
    · exact h group (List.mem_cons_of_mem _ hgroup)
  | case3 k values groups key a hne hlt =>
    intro group hgroup
    rcases List.mem_cons.mp hgroup with rfl | hgroup
    · exact hnew
    · exact h group hgroup
  | case4 k values groups key a hne hlt ih =>
    have hrest := ih (fun group hgroup => h group (List.mem_cons_of_mem _ hgroup)) hnew hmore
    intro group hgroup
    rcases List.mem_cons.mp hgroup with rfl | hgroup
    · exact h (k, values) List.mem_cons_self
    · exact hrest group hgroup

end Groups

/-- What can come of a pair of stations: the average of a station with itself, or the fringe of
two different ones, no further from lag zero than there are channels. -/
inductive Outcome.Fits (channels : Nat) (pair : StationPair) : Outcome → Prop
  | cross {fringe : Fringe} : pair.first ≠ pair.second → -(channels : Int) ≤ fringe.offset →
      fringe.offset ≤ channels - 1 → Fits channels pair (.cross fringe)
  | auto {power : AutoPower} : pair.first = pair.second → Fits channels pair (.auto power)

theorem Setup.fits_of_measure {s : Setup} {v : Visibility} {outcome : Outcome}
    (h : s.measure v = .ok outcome) : outcome.Fits s.channels v.pair := by
  unfold measure at h
  by_cases hauto : v.pair.isAuto = true
  · rw [if_pos hauto] at h
    have hpair : v.pair.first = v.pair.second := beq_iff_eq.mp hauto
    cases hpower : v.spectrum.autoPower with
    | error reason =>
      rw [hpower] at h
      cases h
    | ok power =>
      rw [hpower] at h
      cases h
      exact .auto hpair
  rw [if_neg hauto] at h
  have hpair : v.pair.first ≠ v.pair.second := fun heq => hauto (beq_iff_eq.mpr heq)
  by_cases hchannels : 0 < s.channels
  · let search : FringeSearch := ⟨s.channels, hchannels, s.settings.guardFraction, s.transform⟩
    rw [search_eq hchannels] at h
    change (search.fringe v.spectrum).map Outcome.cross = _ at h
    cases hfringe : search.fringe v.spectrum with
    | error reason =>
      rw [hfringe] at h
      cases h
    | ok fringe =>
      rw [hfringe] at h
      cases h
      obtain ⟨hleast, hgreatest⟩ := FringeSearch.offset_of_fringe hfringe
      exact .cross hpair hleast hgreatest
  · rw [search_eq_none hchannels] at h
    cases h

namespace Tally

/-- What holds of every tally that is filled from a recording of some channels, with or without
auto-correlations. -/
structure Sound (channels : Nat) (autos : Bool) (t : Tally) : Prop where
  /-- Stations are indexed by one byte. -/
  room : t.uvws.length ≤ maxStations ∧ t.occupancies.length ≤ maxStations
  uvws : ∀ index, ∀ r ∈ t.uvws.under index, r.station.toInt = index
  occupancies : ∀ index, ∀ r ∈ t.occupancies.under index, r.station.toNat = index ∧ r.Counted
  /-- Each pair of stations is there once, and no list is empty. -/
  ordered : t.findings.Ordered
  findings : ∀ group ∈ t.findings, (group.1.isAuto = true → autos = true) ∧
    ∀ f ∈ group.2, f.outcome.Fits channels group.1
  skipped : ∀ what ∈ t.skipped, what.pair.isAuto = true → autos = true

variable {channels : Nat} {autos : Bool} {t : Tally}

/-- A tally is sound once it has been cleared, if it has no more room than it may have. -/
theorem sound_clear (hroom : t.uvws.length ≤ maxStations ∧ t.occupancies.length ≤ maxStations) :
    t.clear.Sound channels autos where
  room := by
    show t.uvws.clear.length ≤ _ ∧ t.occupancies.clear.length ≤ _
    rwa [Slots.clear, Slots.clear, List.length_map, List.length_map]
  uvws := Slots.forall_clear _ _
  occupancies := Slots.forall_clear _ _
  ordered := ⟨List.Pairwise.nil, fun _ hmem => nomatch hmem⟩
  findings := fun _ hmem => nomatch hmem
  skipped := fun _ hmem => nomatch hmem

theorem sound_empty (channels : Nat) (autos : Bool) (stations : Nat) :
    (empty stations).Sound channels autos := by
  rw [← clear_empty]
  exact sound_clear (room_empty stations)

theorem Sound.addUvw (h : t.Sound channels autos) {station : UInt8} {r : Uvw}
    (hstation : r.station? = some station) : (t.addUvw station r).Sound channels autos :=
  { h with
    room := ⟨room_file h.room.1 station r, h.room.2⟩
    uvws := Slots.forall_file h.uvws (Uvw.station_eq_some.mp hstation) }

theorem Sound.addOccupancy (h : t.Sound channels autos) {r : Occupancy} (hcounted : r.Counted) :
    (t.addOccupancy r).Sound channels autos :=
  { h with
    room := ⟨h.room.1, room_file h.room.2 r.station r⟩
    occupancies := Slots.forall_file h.occupancies ⟨rfl, hcounted⟩ }

theorem Sound.addFinding (h : t.Sound channels autos) {pair : StationPair} {f : Finding}
    (hasked : pair.isAuto = true → autos = true) (hfits : f.outcome.Fits channels pair) :
    (t.addFinding pair f).Sound channels autos := by
  have hone : ∀ g ∈ [f], g.outcome.Fits channels pair := by simpa using hfits
  let P := fun (pair : StationPair) (values : List Finding) =>
    (pair.isAuto = true → autos = true) ∧ ∀ f ∈ values, f.outcome.Fits channels pair
  have hfindings : ∀ group ∈ t.findings.file pair f, P group.1 group.2 :=
    Groups.forall_file h.findings ⟨hasked, hone⟩
      fun values hvalues => ⟨hasked, List.forall_mem_append.mpr ⟨hvalues.2, hone⟩⟩
  exact { h with ordered := Groups.ordered_file h.ordered pair f, findings := hfindings }

theorem Sound.addSkipped (h : t.Sound channels autos) {what : Skipped}
    (hasked : what.pair.isAuto = true → autos = true) :
    (t.addSkipped what).Sound channels autos := by
  have hskipped : ∀ other ∈ t.skipped ++ [what], other.pair.isAuto = true → autos = true :=
    List.forall_mem_append.mpr ⟨h.skipped, by simpa using hasked⟩
  exact { h with skipped := hskipped }

theorem Sound.addVisibility {s : Setup} (h : t.Sound s.channels s.settings.autos)
    (v : Visibility) : (t.addVisibility s v).Sound s.channels s.settings.autos := by
  unfold Tally.addVisibility
  by_cases hpassed : (v.pair.isAuto && !s.settings.autos) = true
  · rw [if_pos hpassed]
    exact h
  have hasked : v.pair.isAuto = true → s.settings.autos = true := by
    intro hauto
    simpa [hauto] using hpassed
  rw [if_neg hpassed]
  split
  · cases hmeasure : s.measure v with
    | ok outcome => exact h.addFinding hasked (Setup.fits_of_measure hmeasure)
    | error reason => exact h
  · exact h.addSkipped hasked

/-- Two sound tallies. -/
def BothSound (channels : Nat) (autos : Bool) (t u : Tally) : Prop :=
  t.Sound channels autos ∧ u.Sound channels autos

theorem lasting_bothSound (channels : Nat) (autos : Bool) :
    Lasting (BothSound channels autos) where
  clear h := ⟨sound_clear h.1.room, sound_clear h.2.room⟩
  uvw _ _ hstation h := ⟨h.1.addUvw hstation, h.2.addUvw hstation⟩
  occupancy _ hcounted h := ⟨h.1.addOccupancy hcounted, h.2.addOccupancy hcounted⟩

end Tally
end Correlator
