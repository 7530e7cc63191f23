import Correlator.Proofs.Tally.Agreement
import Correlator.Proofs.Tally.Contents
import Correlator.Proofs.Transcript.Widths

/-!
# How much a tally holds

Filing adds one value, wherever it goes.  So every record that was read is counted once:
among what is filed, among what is skipped, or among the records that leave nothing in a
tally (`Tally.Accounts`).  For the records of some runs this comes to what the headers of the
runs declare (`Tally.Balances`).
-/

namespace Correlator

namespace Slots

variable {α : Type} {slots slots' : Slots α}

/-- How many values are filed under all indices. -/
def stored (slots : Slots α) : Nat := slots.flatten.length

theorem stored_file (slots : Slots α) (index : Nat) (a : α) :
    (slots.file index a).stored = slots.stored + 1 := by
  unfold stored
  fun_induction file slots index a with
  | case1 a => rfl
  | case2 a index ih => simpa using ih
  | case3 slot slots a =>
    simp only [List.flatten_cons, List.length_append, List.length_cons, List.length_nil]
    omega
  | case4 slot slots index a ih =>
    simp only [List.flatten_cons, List.length_append] at ih ⊢
    omega

theorem stored_empty (count : Nat) : (empty α count).stored = 0 := by
  rw [stored, empty, List.flatten_replicate_nil, List.length_nil]

theorem Agree.stored_eq (h : slots.Agree slots') : slots.stored = slots'.stored := by
  obtain ⟨row, count, count', rfl, rfl⟩ := h
  unfold stored
  rw [List.flatten_append, List.flatten_append, List.flatten_replicate_nil,
    List.flatten_replicate_nil]

end Slots

namespace Groups

variable {α : Type}

/-- How many values are filed under all keys. -/
def stored (groups : Groups StationPair α) : Nat := (groups.flatMap Prod.snd).length

theorem stored_file (groups : Groups StationPair α) (key : StationPair) (a : α) :
    (groups.file key a).stored = groups.stored + 1 := by
  unfold stored
  fun_induction file groups key a with
  | case1 => rfl
  | case2 =>
    simp only [List.flatMap_cons, List.length_append, List.length_cons, List.length_nil]
    omega
  | case3 =>
    simp only [List.flatMap_cons, List.length_append, List.length_cons, List.length_nil]
    omega
  | case4 k values groups key a hne hlt ih =>
    simp only [List.flatMap_cons, List.length_append] at ih ⊢
    omega

end Groups

/-- How many records of a kind some headers declare together. -/
def RunHeader.declared (count : RunHeader → Nat) : List RunHeader → Nat
  | [] => 0
  | header :: headers => count header + declared count headers

theorem Run.length_flatMap {α : Type} {records : Run → List α} {count : RunHeader → Nat}
    (h : ∀ run : Run, (records run).length = count run.header) (runs : List Run) :
    (runs.flatMap records).length = RunHeader.declared count (runs.map header) := by
  induction runs with
  | nil => rfl
  | cons run runs ih => rw [List.flatMap_cons, List.length_append, h, ih]; rfl

namespace Tally

/-- Every record is in one place.  Coordinates are filed or of no station, statistics are all
filed, and visibilities are filed, skipped or not wanted. -/
structure Accounts (s : Setup) (t : Tally) (uvws : List Uvw) (occupancies : List Occupancy)
    (visibilities : List Visibility) : Prop where
  uvws : t.uvws.stored + uvws.countP (fun r => r.station? = none) = uvws.length
  occupancies : t.occupancies.stored = occupancies.length
  visibilities : t.findings.stored + t.skipped.length + visibilities.countP (fun v => !s.wants v)
    = visibilities.length

variable {s : Setup} {t u : Tally} {uvws : List Uvw} {occupancies : List Occupancy}
  {visibilities : List Visibility}

theorem accounts_empty (s : Setup) (stations : Nat) : (empty stations).Accounts s [] [] [] where
  uvws := Slots.stored_empty _
  occupancies := Slots.stored_empty _
  visibilities := rfl

theorem accounts_addCoordinates (h : t.Accounts s uvws occupancies visibilities) (r : Uvw) :
    (t.addCoordinates r).Accounts s (uvws ++ [r]) occupancies visibilities := by
  have huvws := h.uvws
  unfold addCoordinates
  cases hstation : r.station? with
  | none =>
    refine { h with uvws := ?_ }
    rw [List.countP_append, List.length_append, ← huvws]
    simp [hstation, Nat.add_assoc]
  | some station =>
    refine { h with uvws := ?_ }
    show (t.uvws.file station.toNat r).stored + _ = _
    rw [Slots.stored_file, List.countP_append, List.length_append, ← huvws]
    simp [hstation, Nat.add_right_comm]

theorem accounts_addOccupancy (h : t.Accounts s uvws occupancies visibilities) (r : Occupancy) :
    (t.addOccupancy r).Accounts s uvws (occupancies ++ [r]) visibilities := by
  refine { h with occupancies := ?_ }
  show (t.occupancies.file r.station.toNat r).stored = _
  rw [Slots.stored_file, h.occupancies, List.length_append]
  rfl

theorem accounts_addVisibility (h : t.Accounts s uvws occupancies visibilities) {v : Visibility}
    {outcome : Outcome} (hmeasure : s.measure v = .ok outcome) :
    (t.addVisibility s v).Accounts s uvws occupancies (visibilities ++ [v]) := by
  have hone : (visibilities ++ [v]).length = visibilities.length + 1 := by simp
  have hvisibilities := h.visibilities
  unfold addVisibility
  cases hauto : v.pair.isAuto && !s.settings.autos with
  | true =>
    refine { h with visibilities := ?_ }
    have hcount : (visibilities ++ [v]).countP (fun v => !s.wants v) =
        visibilities.countP (fun v => !s.wants v) + 1 := by
      simp [Setup.wants, hauto, List.countP_append]
    rw [if_pos rfl, hcount, hone]
    omega
  | false =>
    have hcount : (visibilities ++ [v]).countP (fun v => !s.wants v) =
        visibilities.countP (fun v => !s.wants v) := by
      simp [Setup.wants, hauto, List.countP_append]
    rw [if_neg (by simp)]
    split
    · rw [hmeasure]
      refine { h with visibilities := ?_ }
      show (t.findings.file v.pair _).stored + t.skipped.length + _ = _
      rw [Groups.stored_file, hcount, hone]
      omega
    · refine { h with visibilities := ?_ }
      show t.findings.stored + (t.skipped ++ [_]).length + _ = _
      rw [List.length_append, hcount, hone]
      simp only [List.length_cons, List.length_nil]
      omega

theorem filing_accounts (s : Setup) : Filing s (Accounts s) where
  uvw h r := accounts_addCoordinates h r
  occupancy h r := accounts_addOccupancy h r
  visibility h _ _ hmeasure := accounts_addVisibility h hmeasure

/-- A tally holds as many records as the headers of some runs declare, less the coordinates of
no station and the auto-correlations that nobody has asked for. -/
structure Balances (autos : Bool) (t : Tally) (runs : List Run) : Prop where
  uvws : t.uvws.stored + (runs.flatMap Run.uvws).countP
      (fun r => ¬ (0 ≤ r.station.toInt ∧ r.station.toInt < 256))
    = RunHeader.declared RunHeader.uvws (runs.map Run.header)
  occupancies : t.occupancies.stored
    = RunHeader.declared RunHeader.occupancies (runs.map Run.header)
  visibilities : t.findings.stored + t.skipped.length +
      (if autos then 0 else (runs.flatMap Run.visibilities).countP fun v => v.pair.isAuto)
    = RunHeader.declared RunHeader.visibilities (runs.map Run.header)

theorem Accounts.balances {runs : List Run}
    (h : t.Accounts s (runs.flatMap Run.uvws) (runs.flatMap Run.occupancies)
      (runs.flatMap Run.visibilities)) : t.Balances s.settings.autos runs where
  uvws := by
    have hdeclared : (runs.flatMap Run.uvws).length =
        RunHeader.declared RunHeader.uvws (runs.map Run.header) :=
      Run.length_flatMap (fun _ => rfl) runs
    rw [← hdeclared, ← h.uvws]
    simp [Uvw.station?]
  occupancies := h.occupancies.trans (Run.length_flatMap (fun _ => rfl) runs)
  visibilities := by
    have hdeclared : (runs.flatMap Run.visibilities).length =
        RunHeader.declared RunHeader.visibilities (runs.map Run.header) :=
      Run.length_flatMap (fun _ => rfl) runs
    rw [← hdeclared, ← h.visibilities]
    cases hautos : s.settings.autos <;> simp [Setup.wants, hautos]

/-- Room that is not used does not count. -/
theorem Agrees.accounts (h : t.Agrees u) (hu : u.Accounts s uvws occupancies visibilities) :
    t.Accounts s uvws occupancies visibilities where
  uvws := by
    rw [h.uvws.stored_eq]
    exact hu.uvws
  occupancies := h.occupancies.stored_eq.trans hu.occupancies
  visibilities := by
    rw [h.findings, h.skipped]
    exact hu.visibilities

end Tally
end Correlator
