import Correlator.Proofs.Tally.Agreement
import Correlator.Proofs.Tally.Contents
import Mathlib.Data.List.Induction
import Mathlib.Data.List.Sort

/-!
# A tally and its history

Anything may be filed in a tally and it may be cleared, in any order and any number of times.
What it holds is then what was filed since it was last cleared, each value under its key and
in the order of filing (`Tally.Stores`); only the room for stations remembers more
(`Tally.History`).  As a tally is determined by what it holds and by its room, filing in two
different places can be done in either order.
-/

namespace Correlator

/-- The values that were filed under a key, in their order. -/
def valuesUnder {κ α : Type} [DecidableEq κ] (filed : List (κ × α)) (key : κ) : List α :=
  (filed.filter fun entry => entry.1 = key).map Prod.snd

section ValuesUnder

variable {κ α : Type} [DecidableEq κ]

theorem valuesUnder_concat (filed : List (κ × α)) (entry : κ × α) (key : κ) :
    valuesUnder (filed ++ [entry]) key =
      if key = entry.1 then valuesUnder filed key ++ [entry.2] else valuesUnder filed key := by
  unfold valuesUnder
  by_cases h : key = entry.1
  · rw [if_pos h]
    simp [h]
  · rw [if_neg h]
    simp [Ne.symm h]

theorem valuesUnder_eq_nil {filed : List (κ × α)} {key : κ} :
    valuesUnder filed key = [] ↔ ∀ a, (key, a) ∉ filed := by
  simp only [valuesUnder, List.map_eq_nil_iff, List.filter_eq_nil_iff, decide_eq_true_eq,
    Prod.forall]
  constructor
  · intro h a hmem
    exact h key a hmem rfl
  · rintro h _ a hmem rfl
    exact h a hmem

theorem forall_valuesUnder_eq_nil {filed : List (κ × α)} :
    (∀ key, valuesUnder filed key = []) ↔ filed = [] := by
  rw [List.eq_nil_iff_forall_not_mem]
  simp only [valuesUnder_eq_nil, Prod.forall]

/-- Entries under different keys can be filed in either order. -/
theorem valuesUnder_swap (filed : List (κ × α)) {entry entry' : Option (κ × α)}
    (h : ∀ a ∈ entry, ∀ a' ∈ entry', a.1 ≠ a'.1) (key : κ) :
    valuesUnder (filed ++ entry.toList ++ entry'.toList) key =
      valuesUnder (filed ++ entry'.toList ++ entry.toList) key := by
  cases entry with
  | none => simp only [Option.toList_none, List.append_nil]
  | some a =>
    cases entry' with
    | none => simp only [Option.toList_none, List.append_nil]
    | some a' =>
      have hne : a.1 ≠ a'.1 := h a rfl a' rfl
      simp only [Option.toList_some, valuesUnder_concat]
      by_cases hkey : key = a.1
      · have hother : ¬ key = a'.1 := fun hkey' => hne (hkey.symm.trans hkey')
        rw [if_neg hother, if_neg hother]
      · rw [if_neg hkey, if_neg hkey]

end ValuesUnder

namespace Slots

variable {α : Type} {slots slots' : Slots α}

theorem ext_of_under (hlength : slots.length = slots'.length)
    (h : ∀ index, slots.under index = slots'.under index) : slots = slots' := by
  refine List.ext_getElem hlength fun index hindex hindex' => ?_
  have hunder := h index
  rwa [under, under, List.getElem?_eq_getElem hindex, List.getElem?_eq_getElem hindex'] at hunder

theorem all_isEmpty_iff : slots.all List.isEmpty = true ↔ ∀ index, slots.under index = [] := by
  rw [List.all_eq_true]
  constructor
  · intro h index
    unfold under
    cases hslot : slots[index]? with
    | none => rfl
    | some values => exact List.isEmpty_iff.mp (h values (List.mem_of_getElem? hslot))
  · intro h values hmem
    obtain ⟨index, hslot⟩ := List.getElem?_of_mem hmem
    have hunder := h index
    rw [under, hslot] at hunder
    exact List.isEmpty_iff.mpr hunder

theorem mem_occupied {index : Nat} {values : List α} :
    (index, values) ∈ slots.occupied ↔ values ≠ [] ∧ slots.under index = values := by
  simp only [occupied, List.mem_map, List.mem_filter, Bool.not_eq_true', Prod.exists,
    Prod.mk.injEq, List.mem_zipIdx_iff_getElem?]
  constructor
  · rintro ⟨found, place, ⟨hslot, hfilled⟩, rfl, rfl⟩
    exact ⟨by simpa using hfilled, by rw [under, hslot, Option.getD_some]⟩
  · rintro ⟨hfilled, hunder⟩
    refine ⟨values, index, ⟨?_, by simpa using hfilled⟩, rfl, rfl⟩
    unfold under at hunder
    cases hslot : slots[index]? with
    | none =>
      rw [hslot, Option.getD_none] at hunder
      exact absurd hunder.symm hfilled
    | some found => rw [← hunder, hslot, Option.getD_some]

theorem occupied_ascending (slots : Slots α) :
    (slots.occupied.map Prod.fst).Pairwise (· < ·) := by
  have hplaces : (slots.zipIdx.map Prod.snd).Pairwise (· < ·) := by
    rw [List.zipIdx_map_snd]
    exact List.pairwise_lt_range'
  rw [occupied, List.map_map]
  exact hplaces.sublist (List.filter_sublist.map Prod.snd)

/-- The room that some indices need: one more than the largest of them. -/
def reach : List Nat → Nat
  | [] => 0
  | index :: indices => max (index + 1) (reach indices)

theorem reach_append (indices indices' : List Nat) :
    reach (indices ++ indices') = max (reach indices) (reach indices') := by
  induction indices with
  | nil => exact (Nat.zero_max _).symm
  | cons index indices ih => rw [List.cons_append, reach, reach, ih, Nat.max_assoc]

theorem reach_le {indices : List Nat} {bound : Nat} (h : ∀ index ∈ indices, index < bound) :
    reach indices ≤ bound := by
  induction indices with
  | nil => exact Nat.zero_le _
  | cons index indices ih =>
    have hrest := ih fun other hother => h other (List.mem_cons_of_mem _ hother)
    exact Nat.max_le.mpr ⟨h index List.mem_cons_self, hrest⟩

end Slots

theorem StationPair.lt_iff {a b : StationPair} :
    a < b ↔ a.first < b.first ∨ a.first = b.first ∧ a.second < b.second := by
  have hrank : a < b ↔ a.first.toNat * 256 + a.second.toNat <
    b.first.toNat * 256 + b.second.toNat := Iff.rfl
  have ha := a.second.toNat_lt
  have hb := b.second.toNat_lt
  rw [hrank, UInt8.lt_iff_toNat_lt, UInt8.lt_iff_toNat_lt, ← UInt8.toNat_inj]
  omega

instance : Std.Irrefl (α := StationPair) (· < ·) := ⟨StationPair.lt_irrefl⟩

instance : Std.Antisymm (α := StationPair) (· < ·) :=
  ⟨fun a _ h h' => absurd (StationPair.lt_trans h h') (StationPair.lt_irrefl a)⟩

namespace Groups

variable {α : Type} {groups groups' : Groups StationPair α}

theorem under_of_mem (hgroups : groups.Ordered) {group : StationPair × List α}
    (h : group ∈ groups) : groups.under group.1 = group.2 := by
  induction groups with
  | nil => cases h
  | cons first groups ih =>
    obtain ⟨k, values⟩ := first
    obtain ⟨hhead, htail⟩ := List.pairwise_cons.mp hgroups.ascending
    have hrest : Ordered groups :=
      ⟨htail, fun g hg => hgroups.filled g (List.mem_cons_of_mem _ hg)⟩
    rw [under_cons]
    rcases List.mem_cons.mp h with rfl | hlater
    · rw [if_pos rfl]
    · have hlt : k < group.1 := hhead group hlater
      have hne : group.1 ≠ k := by
        intro heq
        rw [heq] at hlt
        exact StationPair.lt_irrefl k hlt
      rw [if_neg hne]
      exact ih hrest hlater

theorem eq_map_keys (hgroups : groups.Ordered) :
    groups = (groups.map Prod.fst).map fun key => (key, groups.under key) := by
  rw [List.map_map]
  refine (List.map_id groups).symm.trans (List.map_congr_left fun group hgroup => ?_)
  rw [Function.comp_apply, under_of_mem hgroups hgroup]
  rfl

theorem eq_nil_iff (hgroups : groups.Ordered) : groups = [] ↔ ∀ key, groups.under key = [] := by
  constructor
  · rintro rfl _
    rfl
  · intro h
    rw [eq_map_keys hgroups, List.map_eq_nil_iff, List.eq_nil_iff_forall_not_mem]
    intro key hkey
    exact (mem_keys_iff hgroups).mp hkey (h key)

/-- Groups in order are determined by what is found in them. -/
theorem ext_of_under (hgroups : groups.Ordered) (hgroups' : groups'.Ordered)
    (h : ∀ key, groups.under key = groups'.under key) : groups = groups' := by
  have hkeys : groups.map Prod.fst = groups'.map Prod.fst := by
    refine List.Pairwise.eq_of_mem_iff (List.pairwise_map.mpr hgroups.ascending)
      (List.pairwise_map.mpr hgroups'.ascending) fun key => ?_
    rw [mem_keys_iff hgroups, mem_keys_iff hgroups', h key]
  rw [eq_map_keys hgroups, eq_map_keys hgroups', hkeys]
  exact List.map_congr_left fun key _ => congrArg (Prod.mk key) (h key)

end Groups

namespace Tally

/-- Something to be filed. -/
inductive Entry
  | occupancy (record : Occupancy)
  | uvw (station : UInt8) (record : Uvw)
  | finding (pair : StationPair) (found : Finding)
  | skipped (what : Skipped)

namespace Entry

@[simp]
def occupancy? : Entry → Option (Nat × Occupancy)
  | .occupancy record => some (record.station.toNat, record)
  | _ => none

@[simp]
def uvw? : Entry → Option (Nat × Uvw)
  | .uvw station record => some (station.toNat, record)
  | _ => none

@[simp]
def finding? : Entry → Option (StationPair × Finding)
  | .finding pair found => some (pair, found)
  | _ => none

@[simp]
def skipped? : Entry → Option Skipped
  | .skipped what => some what
  | _ => none

/-- Entries that do not go to the same list: to different kinds of lists, or to different
stations or pairs. -/
def Apart : Entry → Entry → Prop
  | .occupancy r, .occupancy r' => r.station ≠ r'.station
  | .uvw station _, .uvw station' _ => station ≠ station'
  | .finding pair _, .finding pair' _ => pair ≠ pair'
  | .skipped _, .skipped _ => False
  | _, _ => True

variable {a b : Entry}

theorem finding?_eq_some {pair : StationPair} {found : Finding} :
    a.finding? = some (pair, found) ↔ a = .finding pair found := by
  cases a <;> simp [finding?]

theorem occupancy?_lt (entry : Entry) (filed : Nat × Occupancy)
    (h : entry.occupancy? = some filed) : filed.1 < maxStations := by
  cases entry with
  | occupancy r =>
    rw [← Option.some.inj h]
    exact r.station.toNat_lt
  | _ => cases h

theorem uvw?_lt (entry : Entry) (filed : Nat × Uvw) (h : entry.uvw? = some filed) :
    filed.1 < maxStations := by
  cases entry with
  | uvw station r =>
    rw [← Option.some.inj h]
    exact station.toNat_lt
  | _ => cases h

/-- Every entry is of one of the four kinds. -/
theorem eq_nil_iff {entries : List Entry} : entries = [] ↔
    entries.filterMap Entry.occupancy? = [] ∧ entries.filterMap Entry.uvw? = [] ∧
      entries.filterMap Entry.finding? = [] ∧ entries.filterMap Entry.skipped? = [] := by
  constructor
  · rintro rfl
    exact ⟨rfl, rfl, rfl, rfl⟩
  · simp only [List.filterMap_eq_nil_iff]
    rintro ⟨hoccupancies, huvws, hfindings, hskipped⟩
    refine List.eq_nil_iff_forall_not_mem.mpr fun entry hentry => ?_
    cases entry with
    | occupancy => cases hoccupancies _ hentry
    | uvw => cases huvws _ hentry
    | finding => cases hfindings _ hentry
    | skipped => cases hskipped _ hentry

theorem Apart.occupancy? (h : a.Apart b) : ∀ x ∈ a.occupancy?, ∀ y ∈ b.occupancy?, x.1 ≠ y.1 := by
  cases a <;> cases b <;> simp_all [Apart, UInt8.toNat_inj]

theorem Apart.uvw? (h : a.Apart b) : ∀ x ∈ a.uvw?, ∀ y ∈ b.uvw?, x.1 ≠ y.1 := by
  cases a <;> cases b <;> simp_all [Apart, UInt8.toNat_inj]

theorem Apart.finding? (h : a.Apart b) : ∀ x ∈ a.finding?, ∀ y ∈ b.finding?, x.1 ≠ y.1 := by
  cases a <;> cases b <;> simp_all [Apart]

theorem Apart.skipped? (h : a.Apart b) : a.skipped? = none ∨ b.skipped? = none := by
  cases a <;> cases b <;> simp_all [Apart]

end Entry

@[simp]
def file (t : Tally) : Entry → Tally
  | .occupancy record => t.addOccupancy record
  | .uvw station record => t.addUvw station record
  | .finding pair found => t.addFinding pair found
  | .skipped what => t.addSkipped what

/-- The tally holds these values and no others: under each station and each pair what was
filed there, in the order of filing. -/
structure Stores (t : Tally) (occupancies : List (Nat × Occupancy)) (uvws : List (Nat × Uvw))
    (findings : List (StationPair × Finding)) (skipped : List Skipped) : Prop where
  occupancies : ∀ station, t.occupancies.under station = valuesUnder occupancies station
  uvws : ∀ station, t.uvws.under station = valuesUnder uvws station
  findings : ∀ pair, t.findings.under pair = valuesUnder findings pair
  ordered : t.findings.Ordered
  skipped : t.skipped = skipped

section Stores

variable {t u : Tally} {occupancies : List (Nat × Occupancy)} {uvws : List (Nat × Uvw)}
  {findings : List (StationPair × Finding)} {skipped : List Skipped}

theorem stores_empty (stations : Nat) : (empty stations).Stores [] [] [] [] where
  occupancies _ := Slots.under_empty _ _
  uvws _ := Slots.under_empty _ _
  findings _ := rfl
  ordered := ⟨List.Pairwise.nil, by simp [empty]⟩
  skipped := rfl

theorem stores_clear (t : Tally) : t.clear.Stores [] [] [] [] where
  occupancies _ := by
    show t.occupancies.clear.under _ = _
    rw [Slots.clear_eq_empty, Slots.under_empty]
    rfl
  uvws _ := by
    show t.uvws.clear.under _ = _
    rw [Slots.clear_eq_empty, Slots.under_empty]
    rfl
  findings _ := rfl
  ordered := ⟨List.Pairwise.nil, by simp [clear]⟩
  skipped := rfl

theorem Stores.addOccupancy (h : t.Stores occupancies uvws findings skipped) (r : Occupancy) :
    (t.addOccupancy r).Stores (occupancies ++ [(r.station.toNat, r)]) uvws findings skipped := by
  refine { h with occupancies := fun station => ?_ }
  rw [valuesUnder_concat, ← h.occupancies]
  exact Slots.under_file _ _ _ _

theorem Stores.addUvw (h : t.Stores occupancies uvws findings skipped) (station : UInt8)
    (r : Uvw) :
    (t.addUvw station r).Stores occupancies (uvws ++ [(station.toNat, r)]) findings skipped := by
  refine { h with uvws := fun other => ?_ }
  rw [valuesUnder_concat, ← h.uvws]
  exact Slots.under_file _ _ _ _

theorem Stores.addFinding (h : t.Stores occupancies uvws findings skipped) (pair : StationPair)
    (f : Finding) :
    (t.addFinding pair f).Stores occupancies uvws (findings ++ [(pair, f)]) skipped := by
  refine { h with
    findings := fun other => ?_
    ordered := Groups.ordered_file h.ordered pair f }
  rw [valuesUnder_concat, ← h.findings]
  exact Groups.under_file h.ordered _ _ _

theorem Stores.addSkipped (h : t.Stores occupancies uvws findings skipped) (what : Skipped) :
    (t.addSkipped what).Stores occupancies uvws findings (skipped ++ [what]) :=
  { h with skipped := congrArg (· ++ [what]) h.skipped }

/-- A tally is determined by what it holds and by its room. -/
theorem Stores.eq (ht : t.Stores occupancies uvws findings skipped)
    {occupancies' : List (Nat × Occupancy)} {uvws' : List (Nat × Uvw)}
    {findings' : List (StationPair × Finding)}
    (hu : u.Stores occupancies' uvws' findings' skipped)
    (hoccupancies : ∀ station, valuesUnder occupancies station = valuesUnder occupancies' station)
    (huvws : ∀ station, valuesUnder uvws station = valuesUnder uvws' station)
    (hfindings : ∀ pair, valuesUnder findings pair = valuesUnder findings' pair)
    (hroom : t.occupancies.length = u.occupancies.length ∧ t.uvws.length = u.uvws.length) :
    t = u := by
  have hoccupancies' : t.occupancies = u.occupancies := Slots.ext_of_under hroom.1 fun station => by
    rw [ht.occupancies, hu.occupancies, hoccupancies]
  have huvws' : t.uvws = u.uvws := Slots.ext_of_under hroom.2 fun station => by
    rw [ht.uvws, hu.uvws, huvws]
  have hfindings' : t.findings = u.findings :=
    Groups.ext_of_under ht.ordered hu.ordered fun pair => by
      rw [ht.findings, hu.findings, hfindings]
  have hskipped : t.skipped = u.skipped := ht.skipped.trans hu.skipped.symm
  obtain ⟨_, _, _, _⟩ := t
  obtain ⟨_, _, _, _⟩ := u
  dsimp only at hoccupancies' huvws' hfindings' hskipped
  rw [hoccupancies', huvws', hfindings', hskipped]

theorem Stores.isEmpty_iff (h : t.Stores occupancies uvws findings skipped) :
    t.isEmpty = true ↔ occupancies = [] ∧ uvws = [] ∧ findings = [] ∧ skipped = [] := by
  simp only [isEmpty, Bool.and_eq_true, List.isEmpty_iff, Slots.all_isEmpty_iff,
    Groups.eq_nil_iff h.ordered, h.occupancies, h.uvws, h.findings, h.skipped,
    forall_valuesUnder_eq_nil, and_assoc]

/-- Filing an entry adds it and keeps the rest. -/
theorem Stores.file (h : t.Stores occupancies uvws findings skipped) (entry : Entry) :
    (t.file entry).Stores (occupancies ++ entry.occupancy?.toList) (uvws ++ entry.uvw?.toList)
      (findings ++ entry.finding?.toList) (skipped ++ entry.skipped?.toList) := by
  cases entry with
  | occupancy r => simpa using h.addOccupancy r
  | uvw station r => simpa using h.addUvw station r
  | finding pair f => simpa using h.addFinding pair f
  | skipped what => simpa using h.addSkipped what

theorem length_file (t : Tally) (entry : Entry) :
    (t.file entry).occupancies.length =
        max t.occupancies.length (Slots.reach (entry.occupancy?.toList.map Prod.fst)) ∧
      (t.file entry).uvws.length =
        max t.uvws.length (Slots.reach (entry.uvw?.toList.map Prod.fst)) := by
  have hsame : ∀ room, room = max room (Slots.reach []) := fun _ => (Nat.max_zero _).symm
  cases entry with
  | occupancy r => exact ⟨Slots.length_file _ _ r, hsame _⟩
  | uvw station r => exact ⟨hsame _, Slots.length_file _ _ r⟩
  | finding | skipped => exact ⟨hsame _, hsame _⟩

/-- Whatever a tally holds, entries that do not go to the same list can be filed in either
order. -/
theorem Stores.file_comm (h : t.Stores occupancies uvws findings skipped) {a b : Entry}
    (hapart : a.Apart b) : (t.file a).file b = (t.file b).file a := by
  have hab := (h.file a).file b
  have hba := (h.file b).file a
  have hskipped : skipped ++ a.skipped?.toList ++ b.skipped?.toList =
      skipped ++ b.skipped?.toList ++ a.skipped?.toList := by
    rcases hapart.skipped? with hnone | hnone <;>
      simp only [hnone, Option.toList_none, List.append_nil]
  rw [hskipped] at hab
  have hroom : ∀ x y z : Nat, max (max x y) z = max (max x z) y := by omega
  refine hab.eq hba (valuesUnder_swap _ hapart.occupancy?) (valuesUnder_swap _ hapart.uvw?)
    (valuesUnder_swap _ hapart.finding?) ⟨?_, ?_⟩
  · simp only [length_file, hroom t.occupancies.length]
  · simp only [length_file, hroom t.uvws.length]

end Stores

/-- What is done to a tally. -/
inductive Operation
  | file (entry : Entry)
  | clear

namespace Operation

def entry? : Operation → Option Entry
  | .file entry => some entry
  | .clear => none

/-- What was filed after the last clearing. -/
def kept (operations : List Operation) : List Entry :=
  operations.foldl (fun entries operation =>
    match operation with
    | .file entry => entries ++ [entry]
    | .clear => []) []

theorem kept_concat (operations : List Operation) (operation : Operation) :
    kept (operations ++ [operation]) =
      match operation with
      | .file entry => kept operations ++ [entry]
      | .clear => [] := by
  unfold kept
  rw [List.foldl_append]
  rfl

/-- The keys of everything that was ever filed with one. -/
def keys {κ α : Type} (key? : Entry → Option (κ × α)) (operations : List Operation) : List κ :=
  ((operations.filterMap entry?).filterMap key?).map Prod.fst

theorem keys_concat {κ α : Type} (key? : Entry → Option (κ × α)) (operations : List Operation)
    (operation : Operation) :
    keys key? (operations ++ [operation]) =
      keys key? operations ++ ((operation.entry?.bind key?).toList.map Prod.fst) := by
  unfold keys
  rw [List.filterMap_append, List.filterMap_append, List.map_append]
  congr 2
  cases operation <;> rfl

theorem keys_lt {α : Type} {key? : Entry → Option (Nat × α)}
    (h : ∀ entry filed, key? entry = some filed → filed.1 < maxStations)
    (operations : List Operation) : ∀ station ∈ keys key? operations, station < maxStations := by
  intro station hstation
  simp only [keys, List.mem_map, List.mem_filterMap] at hstation
  obtain ⟨filed, ⟨entry, _, hfiled⟩, rfl⟩ := hstation
  exact h entry filed hfiled

end Operation

def operate (t : Tally) : Operation → Tally
  | .file entry => t.file entry
  | .clear => t.clear

/-- A tally that began empty, with room for some stations, and to which all this was done. -/
structure History (stations : Nat) (operations : List Operation) (t : Tally) : Prop where
  stores : t.Stores ((Operation.kept operations).filterMap Entry.occupancy?)
    ((Operation.kept operations).filterMap Entry.uvw?)
    ((Operation.kept operations).filterMap Entry.finding?)
    ((Operation.kept operations).filterMap Entry.skipped?)
  occupancyRoom : t.occupancies.length =
    max (min stations maxStations) (Slots.reach (Operation.keys Entry.occupancy? operations))
  uvwRoom : t.uvws.length =
    max (min stations maxStations) (Slots.reach (Operation.keys Entry.uvw? operations))

section History

variable {stations : Nat} {operations : List Operation} {t : Tally}

theorem history_empty (stations : Nat) : History stations [] (empty stations) where
  stores := stores_empty stations
  occupancyRoom := List.length_replicate.trans (Nat.max_zero _).symm
  uvwRoom := List.length_replicate.trans (Nat.max_zero _).symm

theorem History.operate (h : History stations operations t) (operation : Operation) :
    History stations (operations ++ [operation]) (t.operate operation) := by
  cases operation with
  | file entry =>
    have hstores := h.stores.file entry
    have hone : ∀ {α : Type} (f : Entry → Option α), (f entry).toList = [entry].filterMap f := by
      intro α f
      cases hf : f entry <;> simp [hf]
    simp only [hone, ← List.filterMap_append] at hstores
    refine ⟨?_, ?_, ?_⟩
    · rw [Operation.kept_concat]
      exact hstores
    · rw [Operation.keys_concat, Slots.reach_append, ← Nat.max_assoc, ← h.occupancyRoom]
      exact (length_file t entry).1
    · rw [Operation.keys_concat, Slots.reach_append, ← Nat.max_assoc, ← h.uvwRoom]
      exact (length_file t entry).2
  | clear =>
    -- Clearing forgets the entries, but not which stations there is room for.
    have hkeys : ∀ {κ α : Type} (key? : Entry → Option (κ × α)),
        Operation.keys key? (operations ++ [.clear]) = Operation.keys key? operations := by
      intro κ α key?
      rw [Operation.keys_concat]
      exact List.append_nil _
    refine ⟨?_, ?_, ?_⟩
    · rw [Operation.kept_concat]
      exact stores_clear t
    · rw [hkeys, ← h.occupancyRoom]
      exact List.length_map _
    · rw [hkeys, ← h.uvwRoom]
      exact List.length_map _

/-- The last operation is the one to look at: what was kept depends on what came before it. -/
theorem history_foldl (stations : Nat) (operations : List Operation) :
    History stations operations (operations.foldl Tally.operate (empty stations)) := by
  induction operations using List.reverseRecOn with
  | nil => exact history_empty stations
  | append_singleton operations operation ih =>
    rw [List.foldl_append]
    exact ih.operate operation

end History

/-- A tally that does all that is expected of one with this history: it has what was filed
after the last clearing, list by list and in the order of filing, and nothing else; and it has
room for the stations that it began with and for those that were ever filed. -/
structure Faithful (stations : Nat) (operations : List Operation) (t : Tally) : Prop where
  occupancies : ∀ station, t.occupancies.under station =
    valuesUnder ((Operation.kept operations).filterMap Entry.occupancy?) station
  uvws : ∀ station, t.uvws.under station =
    valuesUnder ((Operation.kept operations).filterMap Entry.uvw?) station
  pairs : ∀ pair, pair ∈ t.findings.map Prod.fst ↔
    ∃ found, Entry.finding pair found ∈ Operation.kept operations
  pairs_ascending : (t.findings.map Prod.fst).Pairwise fun p q =>
    p.first < q.first ∨ p.first = q.first ∧ p.second < q.second
  findings : ∀ group ∈ t.findings, group.2 ≠ [] ∧
    group.2 = valuesUnder ((Operation.kept operations).filterMap Entry.finding?) group.1
  skipped : t.skipped = (Operation.kept operations).filterMap Entry.skipped?
  isEmpty : t.isEmpty = true ↔ Operation.kept operations = []
  occupied : ∀ station values, (station, values) ∈ t.occupancies.occupied ↔ values ≠ [] ∧
    values = valuesUnder ((Operation.kept operations).filterMap Entry.occupancy?) station
  occupied_ascending : (t.occupancies.occupied.map Prod.fst).Pairwise (· < ·)
  occupancyRoom : t.occupancies.length =
    max (min stations maxStations) (Slots.reach (Operation.keys Entry.occupancy? operations))
  uvwRoom : t.uvws.length =
    max (min stations maxStations) (Slots.reach (Operation.keys Entry.uvw? operations))
  bounded : t.occupancies.length ≤ maxStations ∧ t.uvws.length ≤ maxStations
  commutes : ∀ a b : Entry, a.Apart b → (t.file a).file b = (t.file b).file a

theorem History.faithful {stations : Nat} {operations : List Operation} {t : Tally}
    (h : History stations operations t) : Faithful stations operations t where
  occupancies := h.stores.occupancies
  uvws := h.stores.uvws
  pairs pair := by
    rw [Groups.mem_keys_iff h.stores.ordered, h.stores.findings, Ne, valuesUnder_eq_nil]
    simp only [List.mem_filterMap, Entry.finding?_eq_some, exists_eq_right, not_forall, not_not]
  pairs_ascending := by
    refine List.pairwise_map.mpr (h.stores.ordered.ascending.imp fun hlt => ?_)
    exact StationPair.lt_iff.mp hlt
  findings group hgroup := by
    refine ⟨h.stores.ordered.filled group hgroup, ?_⟩
    rw [← h.stores.findings, Groups.under_of_mem h.stores.ordered hgroup]
  skipped := h.stores.skipped
  isEmpty := h.stores.isEmpty_iff.trans Entry.eq_nil_iff.symm
  occupied station values := by
    rw [Slots.mem_occupied, h.stores.occupancies]
    exact and_congr_right fun _ => eq_comm
  occupied_ascending := Slots.occupied_ascending _
  occupancyRoom := h.occupancyRoom
  uvwRoom := h.uvwRoom
  bounded := by
    rw [h.occupancyRoom, h.uvwRoom]
    have hoccupancies := Slots.reach_le (Operation.keys_lt Entry.occupancy?_lt operations)
    have huvws := Slots.reach_le (Operation.keys_lt Entry.uvw?_lt operations)
    omega
  commutes _ _ := h.stores.file_comm

/-- Whatever is filed in a tally and however often it is cleared, it stays faithful to its
history. -/
theorem faithful_foldl (stations : Nat) (operations : List Operation) :
    empty 0 = {} ∧
      Faithful stations operations (operations.foldl operate (empty stations)) :=
  ⟨rfl, (history_foldl stations operations).faithful⟩

/-- Two stations beyond the first two, one of them before a clearing. -/
theorem faithful_after_clearing :
    let statistics (station : UInt8) : Occupancy := ⟨station, 0, 0, 0, ⟨1, 2, 3, 4, 0⟩⟩
    let t := operate (operate (operate (empty 2) (.file (.occupancy (statistics 5)))) .clear)
      (.file (.occupancy (statistics 3)))
    t.occupancies.occupied = [(3, [statistics 3])] ∧ t.occupancies.length = 6 ∧
      t.uvws.length = 2 ∧
      (t.file (.occupancy (statistics 1))).file (.skipped ⟨⟨0, 1⟩, .ofByte 0⟩) =
        (t.file (.skipped ⟨⟨0, 1⟩, .ofByte 0⟩)).file (.occupancy (statistics 1)) := by
  intro statistics t
  have hfaithful := (faithful_foldl 2 [.file (.occupancy (statistics 5)), .clear,
    .file (.occupancy (statistics 3))]).2
  exact ⟨by decide, hfaithful.occupancyRoom, hfaithful.uvwRoom,
    hfaithful.commutes _ _ trivial⟩

end Tally

end Correlator
