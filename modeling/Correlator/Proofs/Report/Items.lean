import Correlator.Proofs.Tally.History
import Mathlib.Data.Prod.Lex

/-!
# What a report tells

A report is a list of items, each at a place of its own: the heading, the coordinates of a
station, the statistics of a station, or a baseline.  `Outline` says what stands at each place
and that the places ascend.  It determines the items (`Outline.unique`), and there are such
items for every slice whose pairs are in order (`Slice.outline_items`).
-/

namespace Correlator

/-! ## Lists in the order of their places -/

section Places

variable {α β : Type} [LinearOrder β] {place : α → β}

variable {places : List β} {contents : β → List α}

end Places

/-! ## Items and their places -/

/-- What an item of a report is about. -/
inductive ReportPlace
  | heading
  | coordinates (station : Nat)
  | statistics (station : Nat)
  | baseline (pair : StationPair)

namespace ReportPlace

/-- Coordinates come before statistics, and statistics before baselines. -/
def part : ReportPlace → Nat
  | .heading => 0
  | .coordinates _ => 1
  | .statistics _ => 2
  | .baseline _ => 3

/-- The station, or the two stations. -/
def stations : ReportPlace → Nat ×ₗ Nat
  | .heading => toLex (0, 0)
  | .coordinates station | .statistics station => toLex (station, 0)
  | .baseline pair => toLex (pair.first.toNat, pair.second.toNat)

/-- Places are in the order of the parts of a report, and within a part of the stations. -/
def rank (place : ReportPlace) : Nat ×ₗ Nat ×ₗ Nat := toLex (place.part, place.stations)

theorem rank_injective : Function.Injective rank := by
  intro a b h
  cases a <;> cases b <;> simp [rank, part, stations] at h ⊢
  case coordinates => exact h
  case statistics => exact h
  case baseline pair pair' =>
    obtain ⟨hfirst, hsecond⟩ := h
    cases pair
    cases pair'
    exact congrArg₂ StationPair.mk (UInt8.toNat_inj.mp hfirst) (UInt8.toNat_inj.mp hsecond)

instance : LinearOrder ReportPlace := LinearOrder.lift' rank rank_injective

variable {a b : ReportPlace}

end ReportPlace

/-- Something that a report tells, whatever the names and the scale of offsets. -/
inductive ReportItem
  | heading (number : Int32) (label : TimeLabel)
  | coordinates (station : Nat) (record : Uvw)
  | stationName (station : Nat)
  | statistics (station : Nat) (record : Occupancy)
  | baseline (pair : StationPair)
  | finding (pair : StationPair) (found : Finding)

namespace ReportItem

def place : ReportItem → ReportPlace
  | .heading .. => .heading
  | .coordinates station _ => .coordinates station
  | .stationName station => .statistics station
  | .statistics station _ => .statistics station
  | .baseline pair => .baseline pair
  | .finding pair _ => .baseline pair

end ReportItem

/-- An item in front of others, if there are any. -/
def headed (first : ReportItem) : List ReportItem → List ReportItem
  | [] => []
  | items => first :: items

/-- The records at a place, in the order in which they are filed there. -/
def Tally.recordsAt (t : Tally) : ReportPlace → List ReportItem
  | .heading => []
  | .coordinates station => (t.uvws.under station).map (.coordinates station)
  | .statistics station => (t.occupancies.under station).map (.statistics station)
  | .baseline pair => (t.findings.under pair).map (.finding pair)

/-- What is told at a place: each record there and no other.  Statistics come behind the name of
the station, and findings behind the pair. -/
def Slice.contents (slice : Slice) (label : TimeLabel) : ReportPlace → List ReportItem
  | .heading => [.heading slice.number label]
  | .coordinates station => slice.tally.recordsAt (.coordinates station)
  | .statistics station =>
    headed (.stationName station) (slice.tally.recordsAt (.statistics station))
  | .baseline pair => headed (.baseline pair) (slice.tally.recordsAt (.baseline pair))

namespace Slots

variable {α : Type}

end Slots

namespace Slice

variable {slice : Slice} {label : TimeLabel}

/-- The places at which something is told. -/
def places (slice : Slice) : List ReportPlace :=
  .heading :: ((List.range slice.tally.uvws.length).map .coordinates ++
    ((slice.tally.occupancies.occupied.map Prod.fst).map .statistics ++
      (slice.tally.findings.map Prod.fst).map .baseline))

/-- The items of a slice. -/
def items (slice : Slice) (label : TimeLabel) : List ReportItem :=
  slice.places.flatMap (slice.contents label)

end Slice
end Correlator
