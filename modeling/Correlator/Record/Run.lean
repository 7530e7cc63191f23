import Correlator.Record.Occupancy
import Correlator.Record.Uvw
import Correlator.Record.Visibility

/-!
# Runs

A run is a header and the records that it counts: coordinates first, then sampler
statistics, then visibilities.  The header counts them in another order.
-/

namespace Correlator

/-- The header of a run as it is stored. -/
structure RunCounts where
  slice : Int32
  visibilities : Int32
  uvws : Int32
  occupancies : Int32
deriving DecidableEq

instance : Stored RunCounts :=
  .of (α := Int32 × Int32 × Int32 × Int32) (fun (a, b, c, d) => ⟨a, b, c, d⟩)
    (fun h => (h.slice, h.visibilities, h.uvws, h.occupancies)) (fun _ => rfl) (fun _ => rfl)

theorem RunCounts.width_eq : Stored.width RunCounts = 16 := rfl

/-- The header of a run: the slice that the run belongs to, and how many records of
each kind follow. -/
structure RunHeader where
  slice : Int32
  visibilities : Nat
  uvws : Nat
  occupancies : Nat
deriving DecidableEq, Repr

namespace RunHeader

/-- A count read from a header, which must not be negative. -/
def count (slice : Int32) (kind : RecordKind) (n : Int32) : Except DecodeError Nat :=
  if n < 0 then .error (.recordCount slice kind n) else .ok n.toInt.toNat

def ofCounts (h : RunCounts) : Except DecodeError RunHeader := do
  let visibilities ← count h.slice .visibility h.visibilities
  let uvws ← count h.slice .uvw h.uvws
  let occupancies ← count h.slice .occupancy h.occupancies
  return ⟨h.slice, visibilities, uvws, occupancies⟩

def ofBytes (bytes : List UInt8) : Except DecodeError RunHeader := ofCounts (Stored.decode bytes)

def read : Reading RunHeader := do
  let bytes ← Reading.exactly .runHeader (Stored.width RunCounts)
  Reading.ofExcept (ofBytes bytes)

end RunHeader

/-- A run of records. -/
structure Run where
  slice : Int32
  uvws : List Uvw := []
  occupancies : List Occupancy := []
  visibilities : List Visibility := []
deriving DecidableEq

namespace Run

/-- The stored header; counts that do not fit wrap around. -/
def counts (r : Run) : RunCounts :=
  ⟨r.slice, Int32.ofNat r.visibilities.length, Int32.ofNat r.uvws.length,
    Int32.ofNat r.occupancies.length⟩

def encode (r : Run) : List UInt8 :=
  Stored.encode r.counts ++ r.uvws.flatMap Stored.encode ++ r.occupancies.flatMap Stored.encode
    ++ r.visibilities.flatMap Visibility.encode

end Run
end Correlator
