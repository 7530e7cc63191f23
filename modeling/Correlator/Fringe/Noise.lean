/-!
# Noise away from the peak

The noise is measured on the lags outside a guard band around the peak.  Lags lie on
a circle, so the band wraps around both ends of the list.  The arithmetic is left
open: doubles when it runs, exact numbers when it is reasoned about.
-/

namespace Correlator

instance instNatCastFloat : NatCast Float := ⟨Float.ofNat⟩

/-- Whether a lag counts as noise.  Going up from the peak, the band takes `guard`
lags with the peak as the first, and the last `guard` lags before the peak is reached
again. -/
def outsideBand (size peak guard index : Nat) : Bool :=
  let distance := (index + size - peak) % size
  guard ≤ distance && distance < size - guard

/-- The values that count as noise. -/
def noiseValues {α : Type} (lags : List α) (peak guard : Nat) : List α :=
  (lags.zipIdx.filter fun (_, index) => outsideBand lags.length peak guard index).map Prod.fst

/-- Mean, summed squared deviation and number of the noise values. -/
structure Noise (α : Type) where
  mean : α
  squares : α
  count : Nat
deriving DecidableEq

variable {α : Type} [Zero α] [Add α] [Sub α] [Mul α] [Div α] [NatCast α]

/-- Values added up in order. -/
def total (values : List α) : α := values.foldl (· + ·) 0

/-- No values have mean zero. -/
def Noise.ofValues (values : List α) : Noise α :=
  let mean := total values / ((max values.length 1 : Nat) : α)
  ⟨mean, total (values.map fun v => (v - mean) * (v - mean)), values.length⟩

def Noise.measure (lags : List α) (peak guard : Nat) : Noise α :=
  Noise.ofValues (noiseValues lags peak guard)

end Correlator
