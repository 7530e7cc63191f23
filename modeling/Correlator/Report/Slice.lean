import Correlator.Decoder.Basic

/-!
# The report of a slice

A report is a list of lines in which nothing has been turned into text yet, except
that stations and sources go by their labels.
-/

namespace Correlator

inductive ReportLine
  | heading (slice : Int32) (label : TimeLabel)
  | uvw (station source : String) (u v w : Binary64)
  | stationName (name : String)
  | levels (frequency sideband polarisation : UInt8) (fractions : Levels Float)
  | baseline (first second : String)
  | cross (channel : Channel) (amplitude snr : Float) (offset : Int) (weight : Int32)
  | auto (channel : Channel) (power : AutoPower) (weight : Int32)
deriving DecidableEq

namespace ReportLine

/-- Places after the point of a measured number. -/
def places : Nat := 6

def channelText (c : Channel) : String :=
  s!"freq = {c.frequency.val}, sb = {c.sideband.val}, pol = {c.polarisation.val}"

def levelsText (l : Levels Float) : String :=
  let shown := Decimal.fixed places
  s!"--={shown l.minusMinus} -+={shown l.minusPlus} +-={shown l.plusMinus} " ++
    s!"++={shown l.plusPlus} invalid={shown l.invalid}"

def text : ReportLine → String
  | .heading slice label => s!"---------- time slice {slice.toInt} ({label.text}) ---------"
  | .uvw station source u v w =>
    s!"uvw {station} -> {source}: ({Decimal.plain u.toFloat}, {Decimal.plain v.toFloat}, " ++
      s!"{Decimal.plain w.toFloat})"
  | .stationName name => s!"Station {name}"
  | .levels frequency sideband polarisation fractions =>
    s!"freq = {frequency.toNat}, sb = {sideband.toNat}, pol = {polarisation.toNat}, levels : " ++
      levelsText fractions
  | .baseline first second => s!"Baseline : station1 = {first}, station2 = {second}"
  | .cross channel amplitude snr offset weight =>
    s!"{channelText channel}, fringe ampl = {Decimal.fixed places amplitude}, " ++
      s!"SNR = {Decimal.fixed places snr}, offset = {offset}, weight = {weight.toInt}"
  | .auto channel power weight =>
    s!"{channelText channel}, auto ampl = {Decimal.fixed places power.real} + " ++
      s!"{Decimal.fixed places power.imag}i, weight = {weight.toInt}"

/-- Coordinates are of interest only to those who ask for details. -/
def level : ReportLine → Level
  | .uvw .. => .debug
  | _ => .info

def line (l : ReportLine) : LogLine := ⟨l.level, l.text⟩

def ofFinding (scale : OffsetScale) (f : Finding) : ReportLine :=
  match f.outcome with
  | .cross fringe => .cross f.channel fringe.amplitude fringe.snr (fringe.offsetIn scale) f.weight
  | .auto power => .auto f.channel power f.weight

def ofOccupancy (r : Occupancy) : ReportLine :=
  .levels r.frequency r.sideband r.polarisation r.fractions

end ReportLine

/-- How a report labels things and expresses offsets. -/
structure ReportStyle where
  names : Names
  scale : OffsetScale
deriving DecidableEq

namespace ReportStyle

def uvwLines (style : ReportStyle) (t : Tally) : List ReportLine :=
  t.uvws.zipIdx.flatMap fun (records, station) =>
    records.map fun r =>
      .uvw (style.names.station station) (style.names.source r.source.toInt) r.u r.v r.w

def stationLines (style : ReportStyle) (t : Tally) : List ReportLine :=
  t.occupancies.occupied.flatMap fun (station, records) =>
    .stationName (style.names.station station) :: records.map .ofOccupancy

def baselineLines (style : ReportStyle) (t : Tally) : List ReportLine :=
  t.findings.flatMap fun (pair, findings) =>
    .baseline (style.names.station pair.first.toNat) (style.names.station pair.second.toNat) ::
      findings.map (.ofFinding style.scale)

/-- The report of a slice: a heading, then coordinates, sampler statistics and
findings. -/
def report (style : ReportStyle) (slice : Slice) (label : TimeLabel) : List ReportLine :=
  .heading slice.number label ::
    (style.uvwLines slice.tally ++ style.stationLines slice.tally ++
      style.baselineLines slice.tally)

end ReportStyle
end Correlator
