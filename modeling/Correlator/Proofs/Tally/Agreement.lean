import Correlator.Decoder.Event
import Correlator.Proofs.Tally.Lookup
import Correlator.Proofs.Transcript.Records

/-!
# Tallies that say the same

How much room a tally has for stations is a matter of its history: rows grow and are never
cut.  `Slots.Agree` leaves that room out of account and nothing else, and `agree_iff` says that
it comes to the same lists under every index.  A relation between tallies lasts (`Lasting`) if
clearing both and filing the same record in both keeps it.
-/

namespace Correlator

namespace Slots

variable {α : Type} {slots slots' : Slots α}

/-- Rows that differ at most in how many empty lists they end with. -/
def Agree (slots slots' : Slots α) : Prop :=
  ∃ row count count',
    slots = row ++ List.replicate count [] ∧ slots' = row ++ List.replicate count' []

theorem under_append_replicate (row : Slots α) (count index : Nat) :
    under (row ++ List.replicate count []) index = row.under index := by
  unfold under
  rw [List.getElem?_append, List.getElem?_replicate]
  by_cases h : index < row.length
  · rw [if_pos h]
  · rw [if_neg h, List.getElem?_eq_none (by omega)]
    split <;> rfl

/-- A row under which nothing is found is all empty lists. -/
theorem eq_replicate_of_under (h : ∀ index, slots.under index = []) :
    slots = List.replicate slots.length [] := by
  rw [List.eq_replicate_iff]
  refine ⟨rfl, fun slot hslot => ?_⟩
  obtain ⟨index, hindex⟩ := List.getElem?_of_mem hslot
  have hunder := h index
  rwa [under, hindex] at hunder

theorem agree_iff : slots.Agree slots' ↔ ∀ index, slots.under index = slots'.under index := by
  constructor
  · rintro ⟨row, count, count', rfl, rfl⟩ index
    rw [under_append_replicate, under_append_replicate]
  · intro h
    induction slots generalizing slots' with
    | nil => exact ⟨[], 0, slots'.length, rfl, eq_replicate_of_under fun index => (h index).symm⟩
    | cons slot slots ih =>
      cases slots' with
      | nil => exact ⟨[], (slot :: slots).length, 0, eq_replicate_of_under h, rfl⟩
      | cons slot' slots' =>
        have hhead : slot = slot' := h 0
        obtain ⟨row, count, count', hslots, hslots'⟩ := ih fun index => h (index + 1)
        rw [hhead, hslots, hslots']
        exact ⟨slot' :: row, count, count', rfl, rfl⟩

theorem agree_empty (count count' : Nat) : (empty α count).Agree (empty α count') :=
  ⟨[], count, count', rfl, rfl⟩

theorem clear_eq_empty (slots : Slots α) : slots.clear = empty α slots.length :=
  List.map_const'

theorem agree_clear (slots slots' : Slots α) : slots.clear.Agree slots'.clear := by
  rw [clear_eq_empty, clear_eq_empty]
  exact agree_empty _ _

theorem Agree.file (h : slots.Agree slots') (index : Nat) (a : α) :
    (slots.file index a).Agree (slots'.file index a) := by
  rw [agree_iff] at h ⊢
  intro other
  rw [under_file, under_file, h other]

end Slots

namespace Tally

/-- Tallies with the same records of stations. -/
structure SameStations (t u : Tally) : Prop where
  occupancies : t.occupancies.Agree u.occupancies
  uvws : t.uvws.Agree u.uvws

/-- Tallies that differ at most in the room for stations that they do not use. -/
structure Agrees (t u : Tally) : Prop extends SameStations t u where
  findings : t.findings = u.findings
  skipped : t.skipped = u.skipped

/-- A relation between tallies that is kept when both are cleared and when the same record of
a station is filed in both, if it can be one that was read. -/
structure Lasting (rel : Tally → Tally → Prop) : Prop where
  clear : ∀ {t u}, rel t u → rel t.clear u.clear
  uvw : ∀ {t u} (station : UInt8) (r : Uvw), r.station? = some station → rel t u →
    rel (t.addUvw station r) (u.addUvw station r)
  occupancy : ∀ {t u} (r : Occupancy), r.Counted → rel t u →
    rel (t.addOccupancy r) (u.addOccupancy r)

/-- Entering these events in related tallies gives related tallies. -/
def Keeps (rel : Tally → Tally → Prop) (events events' : List Event) : Prop :=
  ∀ t u, rel t u → rel (t.enterAll events) (u.enterAll events')

variable {t u : Tally}

theorem sameStations_empty (count count' : Nat) : (empty count).SameStations (empty count') :=
  ⟨Slots.agree_empty _ _, Slots.agree_empty _ _⟩

theorem sameStations_clear (t u : Tally) : t.clear.SameStations u.clear :=
  ⟨Slots.agree_clear _ _, Slots.agree_clear _ _⟩

theorem agrees_clear (t u : Tally) : t.clear.Agrees u.clear :=
  ⟨sameStations_clear t u, rfl, rfl⟩

theorem SameStations.addUvw (h : t.SameStations u) (station : UInt8) (r : Uvw) :
    (t.addUvw station r).SameStations (u.addUvw station r) :=
  ⟨h.occupancies, h.uvws.file _ _⟩

theorem SameStations.addOccupancy (h : t.SameStations u) (r : Occupancy) :
    (t.addOccupancy r).SameStations (u.addOccupancy r) :=
  ⟨h.occupancies.file _ _, h.uvws⟩

theorem lasting_sameStations : Lasting SameStations where
  clear _ := sameStations_clear _ _
  uvw station r _ h := h.addUvw station r
  occupancy r _ h := h.addOccupancy r

theorem lasting_agrees : Lasting Agrees where
  clear _ := agrees_clear _ _
  uvw station r _ h := ⟨h.toSameStations.addUvw station r, h.findings, h.skipped⟩
  occupancy r _ h := ⟨h.toSameStations.addOccupancy r, h.findings, h.skipped⟩

theorem Agrees.enter (h : t.Agrees u) (event : Event) : (t.enter event).Agrees (u.enter event) := by
  cases event with
  | opened | leftOver | outOfRange => exact h
  | uvw station r => exact ⟨h.toSameStations.addUvw station r, h.findings, h.skipped⟩
  | occupancy r => exact ⟨h.toSameStations.addOccupancy r, h.findings, h.skipped⟩
  | finding pair finding =>
    exact ⟨⟨h.occupancies, h.uvws⟩, congrArg (Groups.file · pair finding) h.findings, h.skipped⟩
  | skipped _ what => exact ⟨⟨h.occupancies, h.uvws⟩, h.findings, congrArg (· ++ [what]) h.skipped⟩

theorem keeps_agrees (events : List Event) : Keeps Agrees events events := by
  induction events with
  | nil => exact fun _ _ h => h
  | cons event events ih => exact fun _ _ h => ih _ _ (h.enter event)

end Tally
end Correlator
