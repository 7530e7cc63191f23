import Correlator.Decimal.Shortest

/-!
# Written forms of a number

Three forms occur in the output: `plain` never uses an exponent, `compact` uses one
for very large and very small numbers and always shows that the number is not an
integer, and `fixed` has a set number of places.
-/

namespace Correlator
namespace Decimal

/-- The decimal digits of a natural number. -/
def natText (n : Nat) : String := String.ofList (Nat.toDigits 10 n)

def signed (negative : Bool) (text : String) : String :=
  if negative then "-" ++ text else text

/-- Digits with a point among them, `places` from the right.  There is always a digit
before the point, and no point without a digit after it. -/
def withPoint (digits : Nat) (places : Nat) : String :=
  let whole := natText (digits / 10 ^ places)
  if places = 0 then whole
  else
    let fraction := natText (digits % 10 ^ places)
    whole ++ "." ++ String.ofList (List.replicate (places - fraction.length) '0') ++ fraction

/-- Every digit written out. -/
def Digits.positional (d : Digits) : String :=
  if d.exponent < 0 then withPoint d.digits (-d.exponent).toNat
  else natText (d.digits * 10 ^ d.exponent.toNat)

/-- One digit before the point, the rest after it, and a power of ten. -/
def Digits.scientific (d : Digits) : String :=
  let places := digitCount d.digits - 1
  withPoint d.digits places ++ "e" ++ toString (d.exponent + places)

/-- The fewest digits that read back, never with an exponent. -/
def plain (x : Float) : String :=
  match Value.ofFloat x with
  | .notANumber => "NaN"
  | .infinite negative => signed negative "inf"
  | .finite negative significand exponent =>
    signed negative (shortest significand exponent).positional

/-- Whether `compact` writes a power of ten: below 0.0001 and from 10 ^ 16 on. -/
def Digits.isExtreme (d : Digits) : Bool :=
  let magnitude := d.exponent + digitCount d.digits
  d.digits != 0 && (magnitude < -3 || 16 < magnitude)

/-- The fewest digits that read back, with an exponent for extreme numbers and with
at least one place otherwise. -/
def compact (x : Float) : String :=
  match Value.ofFloat x with
  | .notANumber => "NaN"
  | .infinite negative => signed negative "inf"
  | .finite negative significand exponent =>
    let d := shortest significand exponent
    signed negative <|
      if d.isExtreme then d.scientific
      else if 0 ≤ d.exponent then d.positional ++ ".0"
      else d.positional

/-- A set number of places, rounded from the exact value.  The sign is that of the
number, so what rounds to zero can read as minus zero. -/
def fixed (places : Nat) (x : Float) : String :=
  match Value.ofFloat x with
  | .notANumber => "NaN"
  | .infinite negative => signed negative "inf"
  | .finite negative significand exponent =>
    let scaled := significand * 10 ^ places
    signed negative <|
      withPoint (Rounding.halfEven (scaled * 2 ^ exponent.toNat) (2 ^ (-exponent).toNat)) places

end Decimal
end Correlator
