import Correlator.Stream.Reading

/-!
# Baseline coordinates

The projected baseline coordinates of one station at the middle of a slice.
-/

namespace Correlator

structure Uvw where
  station : Int32
  source : Int32
  u : Binary64
  v : Binary64
  w : Binary64
deriving DecidableEq

namespace Uvw

instance : Stored Uvw :=
  .of (α := Int32 × Int32 × Binary64 × Binary64 × Binary64)
    (fun (station, source, u, v, w) => ⟨station, source, u, v, w⟩)
    (fun r => (r.station, r.source, r.u, r.v, r.w)) (fun _ => rfl) (fun _ => rfl)

theorem width_eq : Stored.width Uvw = 32 := rfl

def read : Reading Uvw := Stored.decode <$> Reading.exactly .uvw (Stored.width Uvw)

theorem forward_read : read.Forward := along_map _ (Reading.forward_exactly _ _)

/-- The station as an index, if it is one: records index stations with one byte. -/
def station? (r : Uvw) : Option UInt8 :=
  if 0 ≤ r.station.toInt ∧ r.station.toInt < 256 then some (UInt8.ofNat r.station.toInt.toNat)
  else none

end Uvw
end Correlator
