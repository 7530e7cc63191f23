import Correlator.Spectrum.Sample
import Correlator.Stream.Reading

/-!
# Visibilities

A visibility is the spectrum of one baseline, frequency channel, sideband and
polarisation: a header of eight bytes, the last of them unused, and the samples.
-/

namespace Correlator

structure Visibility where
  weight : Int32
  pair : StationPair
  channel : Channel
  spectrum : Spectrum
deriving DecidableEq

/-- The header of a visibility as it is stored; the last byte is not used. -/
structure VisibilityHeader where
  weight : Int32
  pair : StationPair
  channel : Channel
  padding : UInt8
deriving DecidableEq

instance : Stored VisibilityHeader :=
  .of (α := Int32 × UInt8 × UInt8 × Channel × UInt8)
    (fun (weight, first, second, channel, padding) => ⟨weight, ⟨first, second⟩, channel, padding⟩)
    (fun h => (h.weight, h.pair.first, h.pair.second, h.channel, h.padding))
    (fun _ => rfl) (fun _ => rfl)

theorem VisibilityHeader.width_eq : Stored.width VisibilityHeader = 8 := rfl

/-- The width of the samples of one visibility of `channels` channels. -/
def payloadWidth (channels : Nat) : Nat := (channels + 1) * Stored.width Sample

namespace Visibility

def header (v : Visibility) : VisibilityHeader := ⟨v.weight, v.pair, v.channel, 0⟩

def encode (v : Visibility) : List UInt8 :=
  Stored.encode v.header ++ Spectrum.encode v.spectrum

/-- Reads header and samples, whatever becomes of them. -/
def read (channels : Nat) : Reading Visibility := do
  let bytes ← Reading.exactly .visibilityHeader (Stored.width VisibilityHeader)
  let header : VisibilityHeader := Stored.decode bytes
  let payload ← Reading.exactly .visibilityPayload (payloadWidth channels)
  return ⟨header.weight, header.pair, header.channel, Spectrum.decode (channels + 1) payload⟩

theorem forward_read (channels : Nat) : (read channels).Forward :=
  along_bind Source.Onward.trans (Reading.forward_exactly _ _) fun _ =>
    along_bind Source.Onward.trans (Reading.forward_exactly _ _) fun _ =>
      along_pure Source.Onward.refl _

def isFinite (v : Visibility) : Bool := v.spectrum.all Sample.isFinite

end Visibility
end Correlator
