import Correlator.Bytes.Binary
import Correlator.Record.Channel

/-!
# What can be wrong with a recording

Every way in which decoding fails is a constructor that carries what was found;
`message` gives the words for it.
-/

namespace Correlator

/-- Why no fringe can be looked for in a spectrum. -/
inductive SpectrumError
  /-- There are no lags to search. -/
  | tooShort (samples : Nat)
  /-- The search was planned for another number of samples. -/
  | wrongLength (expected found : Nat)
deriving DecidableEq, Repr

def SpectrumError.message : SpectrumError → String
  | .tooShort samples => s!"Invalid spectrum: {samples} samples, at least two are needed"
  | .wrongLength expected found =>
    s!"Spectrum has {found} samples, but the engine was planned for {expected}"

/-- The pieces that a run is read in. -/
inductive Piece
  | runHeader
  | uvw
  | occupancy
  | visibilityHeader
  | visibilityPayload
deriving DecidableEq, Repr

def Piece.name : Piece → String
  | .runHeader => "time slice header"
  | .uvw => "uvw record"
  | .occupancy => "statistics record"
  | .visibilityHeader => "baseline header"
  | .visibilityPayload => "baseline payload"

/-- The kinds of record that a run header counts. -/
inductive RecordKind
  | visibility
  | uvw
  | occupancy
deriving DecidableEq, Repr

def RecordKind.name : RecordKind → String
  | .visibility => "baseline"
  | .uvw => "uvw"
  | .occupancy => "statistics"

/-- The largest channel count that is taken seriously; a wider header is corrupt. -/
def maxChannels : Nat := 2 ^ 20

/-- Everything that can go wrong while a recording is decoded. -/
inductive DecodeError
  /-- The stream ends before the declared length of the global header, or within the
  length itself. -/
  | headerCut (expected found : Nat)
  /-- The declared length belongs to no layout. -/
  | headerSize (declared : Int32)
  | polarisation (code : Int8)
  | channelCount (declared : Int32)
  /-- The header declares more names than its text holds. -/
  | nameCount (stations sources : Int32) (found : Nat)
  /-- The stream ends within a record. -/
  | endOfStream (piece : Piece) (expected found : Nat)
  /-- A run header declares a negative number of records. -/
  | recordCount (slice : Int32) (kind : RecordKind) (count : Int32)
  /-- A sampler level was counted a negative number of times. -/
  | levelCount (station : UInt8) (level : Nat) (count : Int32)
  /-- A spectrum holds an infinity or NaN.  Such records are skipped, and this says
  which record it was. -/
  | notFinite (pair : StationPair) (channel : Channel)
  | spectrum (reason : SpectrumError)
  /-- The stream failed. -/
  | stream (reason : String)
deriving DecidableEq, Repr

namespace DecodeError

def message : DecodeError → String
  | .headerCut expected found =>
    s!"Truncated global header: expected {expected} bytes, found {found}"
  | .headerSize declared =>
    s!"Unsupported global header size {declared.toInt}, expected 64, 84 or at least 92 bytes"
  | .polarisation code => s!"Invalid polarisation mode {code.toInt} in global header"
  | .channelCount declared =>
    s!"Unsupported channel count {declared.toInt} in global header, expected at most {maxChannels}"
  | .nameCount stations sources found =>
    s!"Malformed name table: header declares {stations.toInt} stations and " ++
      s!"{sources.toInt} sources, but only {found} names are present"
  | .endOfStream piece expected found =>
    s!"End of stream while reading {piece.name}: expected {expected} bytes, found {found}"
  | .recordCount slice kind count =>
    s!"Invalid record count in time slice {slice.toInt}: {count.toInt} {kind.name} records"
  | .levelCount station level count =>
    s!"Invalid level count {count.toInt} for level {level} of station {station.toNat}"
  | .notFinite pair channel =>
    s!"Non-finite payload for baseline ({pair.first.toNat}, {pair.second.toNat}), " ++
      s!"freq = {channel.frequency.val}, sb = {channel.sideband.val}, " ++
      s!"pol = {channel.polarisation.val}"
  | .spectrum reason => reason.message
  | .stream reason => reason

/-- Whether the stream merely has no more data. -/
def isEndOfStream : DecodeError → Bool
  | .endOfStream .. => true
  | _ => false

end DecodeError
end Correlator
