import Correlator.Decimal.Notation
import Correlator.Error
import Correlator.Fringe.Noise
import Correlator.Spectrum.Transform

/-!
# Looking for a fringe

The fringe of a spectrum is the peak of its lag function.  A search is planned once
for a number of channels and a width of the guard band.
-/

namespace Correlator

/-- How the delay of a fringe is expressed. -/
inductive OffsetScale
  /-- In lags, of which there are two to a sample of the signal. -/
  | oversampled
  /-- In samples of the signal. -/
  | nyquist
deriving DecidableEq, Repr

/-- Half of an offset to the nearest integer, a half away from zero.  The offset is
first taken to the nearest double, which matters from 2 ^ 53 on. -/
def halfOffset (offset : Int) : Int :=
  let half : Int := (Rounding.toDouble offset.natAbs + 1) / 2
  if offset < 0 then -half else half

/-- A value and its index in a list. -/
structure Peak (α : Type) where
  index : Nat
  height : α
deriving DecidableEq

/-- The first greatest value above `floor`; index zero and `floor` if there is none.
Only a strictly greater value replaces the best one so far, so the first of equal
values wins and a value that compares with nothing is passed over. -/
def Peak.find {α : Type} [LT α] [DecidableLT α] (floor : α) (values : List α) : Peak α :=
  values.zipIdx.foldl (fun best (v, i) => if best.height < v then ⟨i, v⟩ else best) ⟨0, floor⟩

/-- What was found in the spectrum of a baseline. -/
structure Fringe where
  /-- Height of the peak. -/
  amplitude : Float
  /-- Height above the mean noise in units of the noise. -/
  snr : Float
  /-- Place of the peak in lags, relative to lag zero. -/
  offset : Int
deriving DecidableEq

def Fringe.offsetIn (f : Fringe) : OffsetScale → Int
  | .oversampled => f.offset
  | .nyquist => halfOffset f.offset

/-- A search for spectra of `channels + 1` samples. -/
structure FringeSearch where
  channels : Nat
  channels_pos : 0 < channels
  /-- Width of the guard band on either side of the peak as a fraction of all lags. -/
  guardFraction : Float
  transform : Transform := .inverse

namespace FringeSearch

def plan? (channels : Nat) (guardFraction : Float) (transform : Transform := .inverse) :
    Except SpectrumError FringeSearch :=
  if h : 0 < channels then .ok { channels, channels_pos := h, guardFraction, transform }
  else .error (.tooShort 1)

def lagCount (s : FringeSearch) : Nat := 2 * s.channels

/-- Width of the guard band in lags, at least one. -/
def guard (s : FringeSearch) : Nat :=
  max 1 (Float.ofNat s.lagCount * s.guardFraction).round.toUInt64.toNat

/-- Magnitudes of the lags.  The halves of the transform are swapped, which puts lag
zero in the middle. -/
def lagFunction (s : FringeSearch) (spectrum : Spectrum) : Except SpectrumError (List Float) :=
  if spectrum.length ≠ s.channels + 1 then
    .error (.wrongLength (s.channels + 1) spectrum.length)
  else
    let raw := s.transform.apply spectrum.extend
    let scale := 1 / Float.ofNat s.lagCount
    .ok ((raw.drop s.channels ++ raw.take s.channels).map fun v => (v * scale).abs)

/-- The greater of two numbers; a NaN gives way to the other. -/
def greater (a b : Float) : Float :=
  if a.isNaN then b else if a < b then b else a

/-- Keeps the signal to noise ratio finite when there is no noise. -/
def leastSquares : Float := 1e-12

/-- Signal to noise ratio of a peak. -/
def ratio (height : Float) (noise : Noise Float) : Float :=
  let excess := height - noise.mean
  (greater (excess * excess * Float.ofNat noise.count / greater noise.squares leastSquares) 0).sqrt

/-- The fringe of a lag function: its first greatest value. -/
def fringeOfLags (s : FringeSearch) (lags : List Float) : Fringe :=
  let peak := Peak.find (-1 / 0) lags
  { amplitude := peak.height
    snr := ratio peak.height (Noise.measure lags peak.index s.guard)
    offset := (peak.index : Int) - s.channels }

def fringe (s : FringeSearch) (spectrum : Spectrum) : Except SpectrumError Fringe :=
  (s.lagFunction spectrum).map s.fringeOfLags

/-- Shown for diagnosis. -/
def describe (s : FringeSearch) : String :=
  "FringeEngine \x7b num_channels: " ++ toString s.channels ++ ", guard_fraction: " ++
    Decimal.compact s.guardFraction ++ " \x7d"

end FringeSearch

/-- The guard band on either side of the peak, as a fraction of all lags, unless
another is asked for. -/
def defaultGuard : Float := 0.05

/-- The fringe of a single spectrum with the default guard band. -/
def Spectrum.fringe (spectrum : Spectrum) : Except SpectrumError Fringe :=
  if spectrum.length < 2 then .error (.tooShort spectrum.length)
  else (FringeSearch.plan? (spectrum.length - 1) defaultGuard).bind (·.fringe spectrum)

end Correlator
