import Correlator.Record.Run
import Correlator.Tally.Basic

/-!
# What happens while a slice is decoded

Decoding a slice makes a list of events.  The tally of the slice and the lines in the
log are both read off that list, so neither has a say in how decoding goes on.
-/

namespace Correlator

/-- How much a line of the log matters. -/
inductive Level
  | error
  | warn
  | info
  | debug
deriving DecidableEq, Repr

structure LogLine where
  level : Level
  text : String
deriving DecidableEq, Repr

inductive Event
  /-- A slice was found. -/
  | opened (slice : Int32)
  /-- A few bytes are left at the end, too few for the header of a run. -/
  | leftOver (count : Nat)
  | uvw (station : UInt8) (record : Uvw)
  /-- Coordinates of a station that no other record can refer to. -/
  | outOfRange (slice : Int32) (record : Uvw)
  | occupancy (record : Occupancy)
  | finding (pair : StationPair) (finding : Finding)
  | skipped (slice : Int32) (skipped : Skipped)
deriving DecidableEq

namespace Event

/-- The line that an event leaves in the log, if any. -/
def line? : Event → Option LogLine
  | .opened slice => some ⟨.debug, s!"decoding time slice {slice.toInt}"⟩
  | .leftOver count =>
    some ⟨.warn, s!"Ignoring {count} trailing bytes, too few for a time slice header"⟩
  | .outOfRange slice record =>
    some ⟨.warn, s!"Skipping uvw record with out of range station {record.station.toInt} " ++
      s!"in slice {slice.toInt}"⟩
  | .skipped slice what =>
    some ⟨.warn, s!"Skipping record in slice {slice.toInt}: " ++
      (DecodeError.notFinite what.pair what.channel).message⟩
  | .uvw .. | .occupancy _ | .finding .. => none

end Event

namespace Tally

/-- Enter an event.  Only records are entered. -/
def enter (t : Tally) : Event → Tally
  | .uvw station record => t.addUvw station record
  | .occupancy record => t.addOccupancy record
  | .finding pair finding => t.addFinding pair finding
  | .skipped _ what => t.addSkipped what
  | .opened _ | .leftOver _ | .outOfRange .. => t

def enterAll (t : Tally) (events : List Event) : Tally := events.foldl enter t

end Tally
end Correlator
