import Correlator.Calendar.TimeLabel
import Correlator.Record.Visibility
import Correlator.Text.Field

/-!
# The global header

Every recording opens with a header that gives its own length, and the length alone
decides which of three layouts follows.  The newest has names in it, which label the output
and never influence decoding.
-/

namespace Correlator

/-- Which polarisations were correlated. -/
inductive Polarisations
  | left
  | right
  /-- Both hands, each with itself. -/
  | parallel
  /-- Both hands, each with itself and with the other. -/
  | full
deriving DecidableEq, Repr

namespace Polarisations

def ofCode (code : Int8) : Except DecodeError Polarisations :=
  if code = 0 then .ok .left
  else if code = 1 then .ok .right
  else if code = 2 then .ok .parallel
  else if code = 3 then .ok .full
  else .error (.polarisation code)

def toCode : Polarisations → Int8
  | .left => 0
  | .right => 1
  | .parallel => 2
  | .full => 3

def text : Polarisations → String
  | .left => "L"
  | .right => "R"
  | .parallel => "LR"
  | .full => "LR+cross"

theorem ofCode_toCode (p : Polarisations) : ofCode p.toCode = .ok p := by cases p <;> rfl

end Polarisations

/-- Station and source names, each in the order of their indices. -/
structure Names where
  stations : List String := []
  sources : List String := []
deriving DecidableEq

namespace Names

/-- The first `stations` names of a block and the next `sources`; what follows them
does not matter. -/
def ofBlock (block : List UInt8) (stations sources : Int32) : Except DecodeError Names :=
  if stations < 0 ∨ sources < 0 then .error (.nameCount stations sources 0)
  else
    let pieces := Field.pieces block
    let n := stations.toInt.toNat
    let m := sources.toInt.toNat
    if pieces.length < n + m then .error (.nameCount stations sources pieces.length)
    else .ok ⟨(pieces.take n).map Utf8.decode, ((pieces.drop n).take m).map Utf8.decode⟩

def toBlock (names : Names) : List UInt8 :=
  Field.listed (names.stations ++ names.sources)

/-- The name at an index, or the index itself. -/
def labelIn (names : List String) (index : Nat) : String := names[index]?.getD (toString index)

def station (names : Names) (index : Nat) : String := labelIn names.stations index

/-- The label of a source.  An index below zero is shown as it is. -/
def source (names : Names) (index : Int) : String :=
  if index < 0 then toString index else labelIn names.sources index.toNat

end Names

/-- Where the correlation was done: the branch of the software and the job. -/
structure Job where
  branch : String := ""
  number : Int32 := 0
  part : Int32 := 0
deriving DecidableEq

/-- The layouts, from the oldest to the newest, with what each adds. -/
inductive Layout
  | plain
  | withJob (job : Job)
  | withNames (job : Job) (names : Names)
deriving DecidableEq

structure Header where
  /-- Length of the header in bytes. -/
  size : Nat
  experiment : String
  startYear : Int16
  startDay : Int16
  startSecond : Int32
  /-- Spectral channels of a visibility. -/
  channels : Nat
  /-- Duration of a time slice in microseconds. -/
  integration : Int32
  formatVersion : Int32
  correlatorVersion : Int32
  polarisations : Polarisations
  layout : Layout
deriving DecidableEq

namespace Header

def job? (h : Header) : Option Job :=
  match h.layout with
  | .plain => none
  | .withJob job | .withNames job _ => some job

def names? (h : Header) : Option Names :=
  match h.layout with
  | .withNames _ names => some names
  | _ => none

def start (h : Header) : StartTime :=
  ⟨h.startYear.toInt, h.startDay.toInt, h.startSecond.toInt⟩

/-- The label of a slice. -/
def sliceLabel (h : Header) (slice : Int32) : TimeLabel :=
  h.start.sliceLabel slice.toInt h.integration.toInt

/-- The version of the correlator, with the branch if it is known. -/
def softwareVersion (h : Header) : String :=
  let version := toString h.correlatorVersion.toInt
  match h.job? with
  | none => version
  | some job => if job.branch.isEmpty then version else s!"{version} ({job.branch})"

/-- One line of text.  The start is shown as it is stored, so an hour can have any
sign and size. -/
def summary (h : Header) : String :=
  let second := h.startSecond.toInt
  s!"Experiment {h.experiment}, correlator version = {h.softwareVersion}, " ++
    s!"date = {h.startYear.toInt}y{h.startDay.toInt}d{second.tdiv 3600}h" ++
    s!"{(second.tmod 3600).tdiv 60}m{second.tmod 60}s, " ++
    s!"nchan = {h.channels}, pol = {h.polarisations.text}"

/-- Decoding mentions the header in the log once. -/
def notice (h : Header) : String :=
  s!"global header: {h.size} bytes, experiment {h.experiment}, {h.channels} channels, " ++
    s!"{h.integration.toInt}us integrations"

end Header
end Correlator
