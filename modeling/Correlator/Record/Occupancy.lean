import Correlator.Stream.Reading

/-!
# Sampler statistics

How often a station's sampler put out each of its four levels, and how many samples
were invalid.
-/

namespace Correlator

/-- One number for each sampler level, named by the two bits of the level, and one for
invalid samples. -/
structure Levels (α : Type) where
  minusMinus : α
  minusPlus : α
  plusMinus : α
  plusPlus : α
  invalid : α
deriving DecidableEq

namespace Levels

def toList {α : Type} (l : Levels α) : List α :=
  [l.minusMinus, l.minusPlus, l.plusMinus, l.plusPlus, l.invalid]

def map {α β : Type} (f : α → β) (l : Levels α) : Levels β :=
  ⟨f l.minusMinus, f l.minusPlus, f l.plusMinus, f l.plusPlus, f l.invalid⟩

instance {α : Type} [Stored α] : Stored (Levels α) :=
  .of (α := α × α × α × α × α) (fun (a, b, c, d, e) => ⟨a, b, c, d, e⟩)
    (fun l => (l.minusMinus, l.minusPlus, l.plusMinus, l.plusPlus, l.invalid))
    (fun _ => rfl) (fun _ => rfl)

end Levels

/-- The level counts of one station, frequency channel, sideband and polarisation. -/
structure Occupancy where
  station : UInt8
  frequency : UInt8
  sideband : UInt8
  polarisation : UInt8
  levels : Levels Int32
deriving DecidableEq

namespace Occupancy

instance : Stored Occupancy :=
  .of (α := UInt8 × UInt8 × UInt8 × UInt8 × Levels Int32)
    (fun (station, frequency, sideband, polarisation, levels) =>
      ⟨station, frequency, sideband, polarisation, levels⟩)
    (fun r => (r.station, r.frequency, r.sideband, r.polarisation, r.levels))
    (fun _ => rfl) (fun _ => rfl)

theorem width_eq : Stored.width Occupancy = 24 := rfl

/-- A count is never negative; the first level that has such a count is reported. -/
def check (r : Occupancy) : Except DecodeError Occupancy :=
  match r.levels.toList.zipIdx.find? fun (count, _) => count < 0 with
  | some (count, level) => .error (.levelCount r.station level count)
  | none => .ok r

def read : Reading Occupancy := do
  let bytes ← Reading.exactly .occupancy (Stored.width Occupancy)
  Reading.ofExcept (check (Stored.decode bytes))

theorem forward_read : read.Forward :=
  along_bind Source.Onward.trans (Reading.forward_exactly _ _) fun _ =>
    Reading.forward_ofExcept _

/-- Keeps the total of an empty record away from zero. -/
def totalOffset : Float := 1e-4

/-- Each count as a fraction of the total. -/
def fractions (r : Occupancy) : Levels Float :=
  let counts := r.levels.map fun count => Float.ofInt count.toInt
  let total := counts.toList.foldl (· + ·) 0 + totalOffset
  counts.map (· / total)

end Occupancy
end Correlator
