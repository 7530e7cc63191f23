import Correlator.Header.Parse
import Correlator.Record.Run

/-!
# Recordings as they are written

A recording is a header and a sequence of runs.  `Header.Fields` is what a writer puts
into a header.  Nothing is checked, so recordings that do not read back can be written
too.
-/

namespace Correlator

namespace Header

structure Fields where
  experiment : String
  channels : Int32
  startYear : Int16 := 2024
  startDay : Int16 := 1
  startSecond : Int32 := 0
  integration : Int32 := 1000000
  formatVersion : Int32 := 1
  correlatorVersion : Int32 := 1000
  polarisation : Int8 := 2
  job : Option Job := none
  names : Option Names := none
deriving DecidableEq

namespace Fields

/-- Names ask for the newest layout, a job alone for the one before it. -/
def size (f : Fields) : Nat :=
  match f.names, f.job with
  | some names, _ => namesSize + names.toBlock.length
  | none, some _ => jobSize
  | none, none => plainSize

/-- The fields that all layouts have. -/
def encodeStart (f : Fields) : List UInt8 :=
  Stored.encode (Int32.ofNat f.size) ++ Field.padded experimentWidth f.experiment
    ++ Stored.encode f.startYear ++ Stored.encode f.startDay ++ Stored.encode f.startSecond
    ++ Stored.encode f.channels ++ Stored.encode f.integration ++ Stored.encode f.formatVersion
    ++ Stored.encode f.correlatorVersion ++ Stored.encode f.polarisation ++ [0, 0, 0]

def encodeJob (job : Job) : List UInt8 :=
  Field.padded branchWidth job.branch ++ Stored.encode job.number ++ Stored.encode job.part

def encodeNames (names : Names) : List UInt8 :=
  Stored.encode (Int32.ofNat names.stations.length)
    ++ Stored.encode (Int32.ofNat names.sources.length) ++ names.toBlock

/-- The bytes of the header.  Names without a job come with an empty one. -/
def encode (f : Fields) : List UInt8 :=
  f.encodeStart ++
    match f.names, f.job with
    | some names, job => encodeJob (job.getD {}) ++ encodeNames names
    | none, some job => encodeJob job
    | none, none => []

end Fields
end Header

structure Recording where
  header : Header.Fields
  runs : List Run

def Recording.encode (r : Recording) : List UInt8 :=
  r.header.encode ++ r.runs.flatMap Run.encode

end Correlator
