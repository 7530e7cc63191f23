import Correlator.Bytes.Binary

/-!
# Doubles and exact numbers

Printing works on exact numbers: a finite double is `significand * 2 ^ exponent`, an
integer times a power of two.  Quotients are rounded exactly, so that no precision is
lost on the way.
-/

namespace Correlator

namespace Rounding

/-- The integer nearest to a quotient; a half goes to the even neighbour. -/
def halfEven (numerator denominator : Nat) : Nat :=
  let q := numerator / denominator
  let twice := 2 * (numerator % denominator)
  if twice < denominator ∨ (twice = denominator ∧ q % 2 = 0) then q else q + 1

/-- The double nearest to a natural number, which is again a natural number: 53 bits
are kept. -/
def toDouble (n : Nat) : Nat :=
  if n < 2 ^ 53 then n
  else
    let spacing := 2 ^ (n.log2 - 52)
    halfEven n spacing * spacing

end Rounding

namespace Decimal

/-- A double taken apart. -/
inductive Value
  | notANumber
  | infinite (negative : Bool)
  | finite (negative : Bool) (significand : Nat) (exponent : Int)
deriving DecidableEq

/-- Read the sign, exponent and fraction bits.  An exponent field of zero means a
subnormal number, which has no hidden bit. -/
def Value.ofBinary (x : Binary64) : Value :=
  let bits : Nat := x.bits.toNat
  let negative : Bool := 2 ^ 63 ≤ bits
  let field : Nat := bits / 2 ^ 52 % 2 ^ 11
  let fraction : Nat := bits % 2 ^ 52
  if field = 2 ^ 11 - 1 then
    if fraction = 0 then .infinite negative else .notANumber
  else if field = 0 then .finite negative fraction (-1074)
  else .finite negative (fraction + 2 ^ 52) ((field : Int) - 1075)

def Value.ofFloat (x : Float) : Value := Value.ofBinary (.ofFloat x)

end Decimal
end Correlator
