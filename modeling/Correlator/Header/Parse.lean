import Correlator.Header.Basic
import Correlator.Stream.Reading

/-!
# Reading the global header

`ofBytes` takes a header from the start of some bytes, `read` takes it from a stream
and leaves the stream at the first run.
-/

namespace Correlator
namespace Header

/-- Widths of the header: of its length field, of the three layouts, and of the two
text fields. -/
def sizeWidth : Nat := 4

def plainSize : Nat := 64

def jobSize : Nat := 84

def namesSize : Nat := 92

def experimentWidth : Nat := 32

def branchWidth : Nat := 12

/-- A declared length that belongs to a layout. -/
def checkSize (declared : Int32) : Except DecodeError Nat :=
  let size := declared.toInt
  if size = plainSize ∨ size = jobSize ∨ (namesSize : Int) ≤ size then .ok size.toNat
  else .error (.headerSize declared)

/-- The channel count; a negative one means that there are no channels. -/
def checkChannels (declared : Int32) : Except DecodeError Nat :=
  let channels := declared.toInt.toNat
  if maxChannels < channels then .error (.channelCount declared) else .ok channels

/-- A text field at an offset. -/
def textAt (bytes : List UInt8) (offset width : Nat) : String :=
  Field.text ((bytes.drop offset).take width)

def jobAt (bytes : List UInt8) : Job :=
  ⟨textAt bytes 64 branchWidth, Stored.field Int32 bytes 76, Stored.field Int32 bytes 80⟩

/-- The part of the header that depends on its length. -/
def layoutOf (bytes : List UInt8) (size : Nat) : Except DecodeError Layout :=
  if size = plainSize then .ok .plain
  else if size = jobSize then .ok (.withJob (jobAt bytes))
  else
    match Names.ofBlock ((bytes.take size).drop namesSize)
        (Stored.field Int32 bytes 84) (Stored.field Int32 bytes 88) with
    | .ok names => .ok (.withNames (jobAt bytes) names)
    | .error reason => .error reason

/-- The header at the start of `bytes`.  Bytes after the header do not matter. -/
def ofBytes (bytes : List UInt8) : Except DecodeError Header := do
  if bytes.length < sizeWidth then throw (.headerCut sizeWidth bytes.length)
  let size ← checkSize (Stored.field Int32 bytes 0)
  if bytes.length < size then throw (.headerCut size bytes.length)
  let channels ← checkChannels (Stored.field Int32 bytes 44)
  let polarisations ← Polarisations.ofCode (Stored.field Int8 bytes 60)
  let layout ← layoutOf bytes size
  return {
    size, channels, polarisations, layout
    experiment := textAt bytes 4 experimentWidth
    startYear := Stored.field Int16 bytes 36
    startDay := Stored.field Int16 bytes 38
    startSecond := Stored.field Int32 bytes 40
    integration := Stored.field Int32 bytes 48
    formatVersion := Stored.field Int32 bytes 52
    correlatorVersion := Stored.field Int32 bytes 56 }

/-- Read the length, go back to the start of the stream, and read that many bytes. -/
def read : Reading Header := do
  let start ← Reading.upTo sizeWidth
  if start.length < sizeWidth then throw (.headerCut sizeWidth start.length)
  let size ← Reading.ofExcept (checkSize (Stored.field Int32 start 0))
  Reading.seek 0
  let bytes ← Reading.upTo size
  if bytes.length < size then throw (.headerCut size bytes.length)
  Reading.ofExcept (ofBytes bytes)

end Header
end Correlator
