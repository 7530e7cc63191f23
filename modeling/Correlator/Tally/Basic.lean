import Correlator.Fringe.Search
import Correlator.Record.Occupancy
import Correlator.Record.Uvw

/-!
# Everything found in a slice

A tally files what a slice holds by station and by pair of stations: in `Slots`, a
row with one list for each index, and in `Groups`, lists under keys.
-/

namespace Correlator

/-- A row of lists, one for each index.  The row grows when something is filed under an
index that it does not reach yet. -/
abbrev Slots (α : Type) := List (List α)

namespace Slots

def empty (α : Type) (count : Nat) : Slots α := List.replicate count []

/-- File a value under an index, behind what is there. -/
def file {α : Type} : Slots α → Nat → α → Slots α
  | [], 0, a => [[a]]
  | [], index + 1, a => [] :: file [] index a
  | slot :: slots, 0, a => (slot ++ [a]) :: slots
  | slot :: slots, index + 1, a => slot :: file slots index a

/-- What is filed under an index. -/
def under {α : Type} (slots : Slots α) (index : Nat) : List α := slots[index]?.getD []

/-- Forget the values and keep the row as long as it is. -/
def clear {α : Type} (slots : Slots α) : Slots α := slots.map fun _ => []

/-- The lists that hold something, with their indices. -/
def occupied {α : Type} (slots : Slots α) : List (Nat × List α) :=
  (slots.zipIdx.filter fun (values, _) => !values.isEmpty).map fun (values, index) => (index, values)

end Slots

/-- Values filed under keys.  The keys ascend, each is there once, and each has at least
one value. -/
abbrev Groups (κ α : Type) := List (κ × List α)

namespace Groups

variable {κ α : Type}

/-- File a value under a key, behind what is there. -/
def file [DecidableEq κ] [LT κ] [DecidableLT κ] : Groups κ α → κ → α → Groups κ α
  | [], key, a => [(key, [a])]
  | (k, values) :: groups, key, a =>
    if key = k then (k, values ++ [a]) :: groups
    else if key < k then (key, [a]) :: (k, values) :: groups
    else (k, values) :: file groups key a

/-- What is filed under a key. -/
def under [DecidableEq κ] (groups : Groups κ α) (key : κ) : List α :=
  (groups.lookup key).getD []

end Groups

/-- What was computed from a spectrum. -/
inductive Outcome
  | cross (fringe : Fringe)
  | auto (power : AutoPower)
deriving DecidableEq

/-- The result for one visibility. -/
structure Finding where
  weight : Int32
  channel : Channel
  outcome : Outcome
deriving DecidableEq

/-- A visibility that was left out because its spectrum is not finite. -/
structure Skipped where
  pair : StationPair
  channel : Channel
deriving DecidableEq

/-- Stations are indexed by one byte. -/
def maxStations : Nat := 256

structure Tally where
  occupancies : Slots Occupancy := []
  uvws : Slots Uvw := []
  findings : Groups StationPair Finding := []
  skipped : List Skipped := []
deriving DecidableEq

namespace Tally

/-- An empty tally with room for a number of stations. -/
def empty (stations : Nat) : Tally where
  occupancies := .empty _ (min stations maxStations)
  uvws := .empty _ (min stations maxStations)

/-- Forget everything but the room for stations. -/
def clear (t : Tally) : Tally where
  occupancies := t.occupancies.clear
  uvws := t.uvws.clear

def isEmpty (t : Tally) : Bool :=
  t.occupancies.all List.isEmpty && t.uvws.all List.isEmpty && t.findings.isEmpty
    && t.skipped.isEmpty

def addOccupancy (t : Tally) (r : Occupancy) : Tally :=
  { t with occupancies := t.occupancies.file r.station.toNat r }

def addUvw (t : Tally) (station : UInt8) (r : Uvw) : Tally :=
  { t with uvws := t.uvws.file station.toNat r }

def addFinding (t : Tally) (pair : StationPair) (f : Finding) : Tally :=
  { t with findings := t.findings.file pair f }

def addSkipped (t : Tally) (s : Skipped) : Tally :=
  { t with skipped := t.skipped ++ [s] }

end Tally
end Correlator
