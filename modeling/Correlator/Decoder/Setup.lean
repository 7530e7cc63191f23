import Correlator.Decoder.Event

/-!
# What decoding depends on

Besides the stream, decoding depends on the number of channels and on what was chosen
for it.  A `Setup` has both, and decides what becomes of each record.
-/

namespace Correlator

/-- Choices made for decoding. -/
structure Settings where
  /-- Whether auto-correlations are averaged; otherwise they are passed over. -/
  autos : Bool := false
  /-- Width of the guard band as a fraction of all lags. -/
  guardFraction : Float := defaultGuard
  /-- Room for stations when the header names none. -/
  stationHint : Nat := 32
deriving DecidableEq

namespace Settings

/-- Whether nothing was chosen.  A NaN is never the default. -/
def isDefault (s : Settings) : Bool :=
  !s.autos && s.guardFraction == defaultGuard && s.stationHint == 32

def text (s : Settings) : String :=
  (if s.autos then "Will" else "Will not") ++ " compute auto-correlation amplitudes.\n" ++
    s!"Will ignore {Decimal.plain (s.guardFraction * 100)}% of lags either side of the fringe " ++
    "peak for the noise estimate.\n"

end Settings

/-- What decoding depends on besides the stream. -/
structure Setup where
  channels : Nat
  settings : Settings := {}
  /-- What takes a spectrum to its lags. -/
  transform : Transform := .inverse

namespace Setup

/-- There is nothing to look for in a recording without channels. -/
def search? (s : Setup) : Option FringeSearch :=
  (FringeSearch.plan? s.channels s.settings.guardFraction s.transform).toOption

/-- The average of an auto-correlation, or the fringe of a cross-correlation. -/
def measure (s : Setup) (v : Visibility) : Except SpectrumError Outcome :=
  if v.pair.isAuto then v.spectrum.autoPower.map .auto
  else
    match s.search? with
    | none => .error (.tooShort v.spectrum.length)
    | some search => (search.fringe v.spectrum).map .cross

/-- What becomes of a visibility: auto-correlations that nobody asked for leave no
trace, spectra that are not finite are skipped, and all others are measured. -/
def judgeVisibility (s : Setup) (slice : Int32) (v : Visibility) :
    Except DecodeError (List Event) :=
  if v.pair.isAuto && !s.settings.autos then .ok []
  else if !v.isFinite then .ok [.skipped slice ⟨v.pair, v.channel⟩]
  else
    match s.measure v with
    | .ok outcome => .ok [.finding v.pair ⟨v.weight, v.channel, outcome⟩]
    | .error reason => .error (.spectrum reason)

/-- What becomes of coordinates. -/
def judgeUvw (slice : Int32) (r : Uvw) : Except DecodeError (List Event) :=
  match r.station? with
  | some station => .ok [.uvw station r]
  | none => .ok [.outOfRange slice r]

def judgeOccupancy (r : Occupancy) : Except DecodeError (List Event) := .ok [.occupancy r]

end Setup
end Correlator
