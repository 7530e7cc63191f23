import Correlator.Bytes.Stored

/-!
# Binary floating point as a file holds it

A recording holds single and double precision numbers.  They are kept here as their
bits, so that writing a record gives back the bytes it was read from, NaN payloads
and negative zeros included.  Arithmetic happens after `toFloat`.
-/

namespace Correlator

/-- A single precision number: sign, eight exponent bits, 23 fraction bits. -/
structure Binary32 where
  bits : UInt32
deriving DecidableEq, Inhabited

/-- A double precision number: sign, eleven exponent bits, 52 fraction bits. -/
structure Binary64 where
  bits : UInt64
deriving DecidableEq, Inhabited

namespace Binary32

def zero : Binary32 := ⟨0⟩

/-- Neither infinite nor NaN: the exponent bits are not all set. -/
def isFinite (x : Binary32) : Bool := x.bits.toNat / 2 ^ 23 % 2 ^ 8 != 2 ^ 8 - 1

/-- The number with the other sign, which is a matter of the top bit alone. -/
def negate (x : Binary32) : Binary32 := ⟨x.bits ^^^ 0x80000000⟩

/-- The same number in double precision, where it is exact. -/
def toFloat (x : Binary32) : Float := (Float32.ofBits x.bits).toFloat

instance : Stored Binary32 := .of Binary32.mk Binary32.bits (fun _ => rfl) (fun _ => rfl)

theorem negate_negate (x : Binary32) : x.negate.negate = x := by
  cases x with
  | mk bits =>
    have h : bits ^^^ 0x80000000 ^^^ 0x80000000 = bits := by
      rw [UInt32.xor_assoc, UInt32.xor_self, UInt32.xor_zero]
    simp only [negate, h]

end Binary32

namespace Binary64

def toFloat (x : Binary64) : Float := Float.ofBits x.bits

def ofFloat (x : Float) : Binary64 := ⟨x.toBits⟩

instance : Stored Binary64 := .of Binary64.mk Binary64.bits (fun _ => rfl) (fun _ => rfl)

end Binary64
end Correlator
