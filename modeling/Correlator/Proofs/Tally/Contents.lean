import Correlator.Proofs.Decoder.Filing
import Correlator.Proofs.Tally.Lookup

/-!
# What a tally holds

`Tally.Holds` says that a tally holds certain records and nothing else, each list in the
order of the records.  Filing a record adds it and keeps the rest, so the tally of a
block of runs holds the records of all its runs.  `Filing.addRuns` goes from single records
to runs for any such statement.
-/

namespace Correlator

theorem Uvw.station_eq_some {r : Uvw} {station : UInt8} :
    r.station? = some station ↔ r.station.toInt = station.toNat := by
  have hlt := station.toNat_lt
  unfold station?
  constructor
  · intro h
    split at h
    · rename_i hrange
      rw [Option.some.injEq] at h
      rw [← h, UInt8.toNat_ofNat']
      omega
    · simp at h
  · intro h
    rw [if_pos (by omega), Option.some.injEq, h, Int.toNat_natCast, UInt8.ofNat_toNat]

namespace Setup

/-- Whether a visibility is to be filed at all. -/
def wants (s : Setup) (v : Visibility) : Bool := !(v.pair.isAuto && !s.settings.autos)

def finding (s : Setup) (v : Visibility) : Except SpectrumError Finding :=
  (s.measure v).map fun outcome => ⟨v.weight, v.channel, outcome⟩

end Setup

namespace Tally

/-- The tally holds these records.  Coordinates and statistics are found under their
station, coordinates of no station nowhere.  What comes of the wanted and finite
visibilities is found under their pairs, and the wanted others are noted as skipped. -/
structure Holds (s : Setup) (t : Tally) (uvws : List Uvw) (occupancies : List Occupancy)
    (visibilities : List Visibility) : Prop where
  uvws : ∀ station : UInt8,
    t.uvws.under station.toNat = uvws.filter fun r => r.station.toInt = (station.toNat : Int)
  occupancies : ∀ station : UInt8,
    t.occupancies.under station.toNat = occupancies.filter fun r => r.station = station
  findings : ∀ pair, (t.findings.under pair).map Except.ok
    = (visibilities.filter fun v => v.pair = pair ∧ s.wants v ∧ v.isFinite).map s.finding
  ordered : t.findings.Ordered
  skipped : t.skipped = (visibilities.filter fun v => s.wants v ∧ ¬ v.isFinite).map
    fun v => ⟨v.pair, v.channel⟩
  room : t.uvws.length ≤ maxStations ∧ t.occupancies.length ≤ maxStations

variable {s : Setup} {t : Tally} {uvws : List Uvw} {occupancies : List Occupancy}
  {visibilities : List Visibility}

theorem room_empty (stations : Nat) : (empty stations).uvws.length ≤ maxStations ∧
    (empty stations).occupancies.length ≤ maxStations := by
  simp only [empty, Slots.empty, List.length_replicate]
  omega

theorem holds_empty (s : Setup) (stations : Nat) : (empty stations).Holds s [] [] [] where
  uvws _ := Slots.under_empty _ _
  occupancies _ := Slots.under_empty _ _
  findings _ := rfl
  ordered := ⟨List.Pairwise.nil, by simp [empty]⟩
  skipped := rfl
  room := room_empty stations

theorem room_file {α : Type} {slots : Slots α} (h : slots.length ≤ maxStations)
    (station : UInt8) (a : α) : (slots.file station.toNat a).length ≤ maxStations := by
  have hlt := station.toNat_lt
  rw [Slots.length_file]
  unfold maxStations at h ⊢
  omega

theorem holds_addCoordinates (h : t.Holds s uvws occupancies visibilities) (r : Uvw) :
    (t.addCoordinates r).Holds s (uvws ++ [r]) occupancies visibilities := by
  unfold addCoordinates
  cases hstation : r.station? with
  | none =>
    refine { h with uvws := fun station => ?_ }
    have hother : ¬ r.station.toInt = station.toNat := by
      rw [← Uvw.station_eq_some, hstation]
      simp
    rw [h.uvws station, List.filter_append]
    simp [hother]
  | some found =>
    have hfound := Uvw.station_eq_some.mp hstation
    refine { h with
      uvws := fun station => ?_
      room := ⟨room_file h.room.1 found r, h.room.2⟩ }
    show (t.uvws.file found.toNat r).under station.toNat = _
    rw [Slots.under_file, h.uvws station, List.filter_append]
    by_cases hsame : station.toNat = found.toNat
    · rw [if_pos hsame]
      simp [hfound, hsame]
    · have hother : ¬ (found.toNat : Int) = station.toNat := by omega
      rw [if_neg hsame]
      simp [hfound, hother]

theorem holds_addOccupancy (h : t.Holds s uvws occupancies visibilities) (r : Occupancy) :
    (t.addOccupancy r).Holds s uvws (occupancies ++ [r]) visibilities := by
  refine { h with
    occupancies := fun station => ?_
    room := ⟨h.room.1, room_file h.room.2 r.station r⟩ }
  show (t.occupancies.file r.station.toNat r).under station.toNat = _
  rw [Slots.under_file, h.occupancies station, List.filter_append]
  by_cases hsame : r.station = station
  · simp [hsame]
  · have hother : ¬ station.toNat = r.station.toNat :=
      fun heq => hsame (UInt8.toNat_inj.mp heq).symm
    rw [if_neg hother]
    simp [hsame]

theorem holds_addVisibility (h : t.Holds s uvws occupancies visibilities) {v : Visibility}
    {outcome : Outcome} (hmeasure : s.measure v = .ok outcome) :
    (t.addVisibility s v).Holds s uvws occupancies (visibilities ++ [v]) := by
  unfold addVisibility
  by_cases hwants : s.wants v = true
  · have hkept : ¬ (v.pair.isAuto && !s.settings.autos) = true := by
      simpa only [Setup.wants, Bool.not_eq_true', Bool.not_eq_true] using hwants
    rw [if_neg hkept]
    by_cases hfinite : v.isFinite = true
    · rw [if_pos hfinite, hmeasure]
      refine { h with findings := fun pair => ?_, ordered := ?_, skipped := ?_ }
      · show ((t.findings.file v.pair _).under pair).map Except.ok = _
        rw [Groups.under_file h.ordered, List.filter_append, List.map_append, ← h.findings pair]
        by_cases hpair : v.pair = pair
        · rw [if_pos hpair.symm]
          simp [hpair, hwants, hfinite, Setup.finding, hmeasure, Except.map]
        · rw [if_neg fun heq => hpair heq.symm]
          simp [hpair]
      · exact Groups.ordered_file h.ordered _ _
      · rw [List.filter_append, List.map_append, ← h.skipped]
        simp [addFinding, hfinite]
    · rw [if_neg hfinite]
      refine { h with findings := fun pair => ?_, skipped := ?_ }
      · rw [List.filter_append, List.map_append, ← h.findings pair]
        simp [addSkipped, hfinite]
      · show t.skipped ++ [_] = _
        rw [List.filter_append, List.map_append, ← h.skipped]
        simp [hwants, hfinite]
  · have hpassed : (v.pair.isAuto && !s.settings.autos) = true := by
      simpa [Setup.wants] using hwants
    rw [if_pos hpassed]
    refine { h with findings := fun pair => ?_, skipped := ?_ }
    · rw [List.filter_append, List.map_append, ← h.findings pair]
      simp [hwants]
    · rw [List.filter_append, List.map_append, ← h.skipped]
      simp [hwants]

/-- Adding values one by one, each of which is added to what is held, adds them all. -/
theorem holds_foldl {α : Type} (Held : Tally → List α → Prop) {add : Tally → α → Tally}
    {new : List α} (hadd : ∀ a ∈ new, ∀ t old, Held t old → Held (add t a) (old ++ [a])) :
    ∀ {t old}, Held t old → Held (new.foldl add t) (old ++ new) := by
  induction new with
  | nil =>
    intro t old h
    rwa [List.append_nil]
  | cons a new ih =>
    intro t old h
    have hnext := ih (fun b hb => hadd b (List.mem_cons_of_mem a hb))
      (hadd a List.mem_cons_self t old h)
    rwa [List.append_assoc, List.singleton_append] at hnext

/-- What may be said of a tally and the records that were read, if adding a record of each kind
keeps it. -/
structure Filing (s : Setup)
    (Held : Tally → List Uvw → List Occupancy → List Visibility → Prop) : Prop where
  uvw : ∀ {t us os vs}, Held t us os vs → ∀ r, Held (t.addCoordinates r) (us ++ [r]) os vs
  occupancy : ∀ {t us os vs}, Held t us os vs → ∀ r, Held (t.addOccupancy r) us (os ++ [r]) vs
  visibility : ∀ {t us os vs}, Held t us os vs → ∀ {v outcome}, s.measure v = .ok outcome →
    Held (t.addVisibility s v) us os (vs ++ [v])

theorem filing_holds (s : Setup) : Filing s (Holds s) where
  uvw h r := holds_addCoordinates h r
  occupancy h r := holds_addOccupancy h r
  visibility h _ _ hmeasure := holds_addVisibility h hmeasure

namespace Filing

variable {Held : Tally → List Uvw → List Occupancy → List Visibility → Prop}

theorem addRun (hfiling : Filing s Held) (h : Held t uvws occupancies visibilities) {r : Run}
    (hmeasured : ∀ v ∈ r.visibilities, ∃ outcome, s.measure v = .ok outcome) :
    Held (t.addRun s r) (uvws ++ r.uvws) (occupancies ++ r.occupancies)
      (visibilities ++ r.visibilities) := by
  have huvws : Held (r.uvws.foldl addCoordinates t) (uvws ++ r.uvws) occupancies visibilities :=
    holds_foldl (fun t us => Held t us occupancies visibilities)
      (fun u _ _ _ ht => hfiling.uvw ht u) h
  have hoccupancies : Held (r.occupancies.foldl addOccupancy (r.uvws.foldl addCoordinates t))
      (uvws ++ r.uvws) (occupancies ++ r.occupancies) visibilities :=
    holds_foldl (fun t os => Held t (uvws ++ r.uvws) os visibilities)
      (fun o _ _ _ ht => hfiling.occupancy ht o) huvws
  refine holds_foldl (fun t vs => Held t (uvws ++ r.uvws) (occupancies ++ r.occupancies) vs)
    (fun v hv _ _ ht => ?_) hoccupancies
  obtain ⟨outcome, hmeasure⟩ := hmeasured v hv
  exact hfiling.visibility ht hmeasure

theorem addRuns (hfiling : Filing s Held) (hchannels : 0 < s.channels) {runs : List Run}
    (hsamples : ∀ r ∈ runs, ∀ v ∈ r.visibilities, v.spectrum.length = s.channels + 1)
    (h : Held t uvws occupancies visibilities) :
    Held (runs.foldl (Tally.addRun s) t) (uvws ++ runs.flatMap Run.uvws)
      (occupancies ++ runs.flatMap Run.occupancies)
      (visibilities ++ runs.flatMap Run.visibilities) := by
  induction runs generalizing t uvws occupancies visibilities with
  | nil => simpa using h
  | cons r runs ih =>
    have hr := hfiling.addRun h fun v hv =>
      Setup.measure_ok hchannels (hsamples r List.mem_cons_self v hv)
    have hruns := ih (fun r' hr' => hsamples r' (List.mem_cons_of_mem r hr')) hr
    rw [List.foldl_cons]
    simpa only [List.flatMap_cons, List.append_assoc] using hruns

end Filing
end Tally

/-- A slice holds the records of the runs that it was made of, one run after another. -/
theorem Slice.holds_ofRuns {s : Setup} (hchannels : 0 < s.channels) (stations : Nat)
    {block : List Run}
    (hsamples : ∀ r ∈ block, ∀ v ∈ r.visibilities, v.spectrum.length = s.channels + 1) :
    (ofRuns s stations block).tally.Holds s (block.flatMap Run.uvws)
      (block.flatMap Run.occupancies) (block.flatMap Run.visibilities) :=
  (Tally.filing_holds s).addRuns hchannels hsamples (Tally.holds_empty s stations)

end Correlator
