import Correlator.Bytes.Stored

/-!
# Which spectrum it is

A spectrum belongs to a pair of stations and, within the pair, to a frequency
channel, a sideband and a polarisation.  The last three share one byte.
-/

namespace Correlator

/-- Frequency channel, sideband and polarisation of a spectrum.  The bounds are those
of the bit fields, so that every byte is one of these and every one is a byte. -/
structure Channel where
  frequency : Fin 32
  sideband : Fin 2
  polarisation : Fin 4
deriving DecidableEq, Repr, Inhabited

namespace Channel

/-- The low two bits are the polarisation, the third is the sideband. -/
def ofByte (b : UInt8) : Channel where
  frequency := ⟨b.toNat / 8, by have := b.toNat_lt; omega⟩
  sideband := ⟨b.toNat / 4 % 2, by omega⟩
  polarisation := ⟨b.toNat % 4, by omega⟩

def toByte (c : Channel) : UInt8 :=
  UInt8.ofNat (c.frequency * 8 + c.sideband * 4 + c.polarisation)

/-- Keep of each number the bits that its field has room for. -/
def ofParts (frequency sideband polarisation : Nat) : Channel :=
  ⟨Fin.ofNat 32 frequency, Fin.ofNat 2 sideband, Fin.ofNat 4 polarisation⟩

theorem toByte_ofByte (b : UInt8) : (ofByte b).toByte = b := by
  apply UInt8.toNat_inj.mp
  have := b.toNat_lt
  simp only [toByte, ofByte, UInt8.toNat_ofNat']
  omega

theorem ofByte_toByte (c : Channel) : ofByte c.toByte = c := by
  obtain ⟨⟨f, hf⟩, ⟨s, hs⟩, ⟨p, hp⟩⟩ := c
  have h : (UInt8.ofNat (f * 8 + s * 4 + p)).toNat = f * 8 + s * 4 + p := by
    simp only [UInt8.toNat_ofNat']
    omega
  simp only [ofByte, toByte, h, Channel.mk.injEq, Fin.mk.injEq]
  omega

instance : Stored Channel := .of ofByte toByte ofByte_toByte toByte_ofByte

end Channel

/-- The stations at the two ends of a baseline. -/
structure StationPair where
  first : UInt8
  second : UInt8
deriving DecidableEq, Repr, Inhabited

namespace StationPair

/-- A station paired with itself. -/
def isAuto (p : StationPair) : Bool := p.first == p.second

/-- Pairs are listed by first station, then by second. -/
def rank (p : StationPair) : Nat := p.first.toNat * 256 + p.second.toNat

instance : LT StationPair := ⟨fun a b => a.rank < b.rank⟩

instance (a b : StationPair) : Decidable (a < b) := inferInstanceAs (Decidable (a.rank < b.rank))

theorem rank_inj {a b : StationPair} (h : a.rank = b.rank) : a = b := by
  obtain ⟨a₁, a₂⟩ := a
  obtain ⟨b₁, b₂⟩ := b
  have := a₂.toNat_lt
  have := b₂.toNat_lt
  simp only [rank] at h
  simp only [mk.injEq]
  constructor <;> apply UInt8.toNat_inj.mp <;> omega

end StationPair
end Correlator
