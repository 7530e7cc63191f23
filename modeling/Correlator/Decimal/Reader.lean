/-!
# Reading a number

`read?` accepts a sign, digits with at most one point among them, and a power of ten;
or a sign and one of the words for infinity and NaN.
-/

namespace Correlator
namespace Decimal

/-- The value of a run of digits, and what follows it. -/
def spanDigits (text : List Char) : List Char × List Char :=
  (text.takeWhile Char.isDigit, text.dropWhile Char.isDigit)

def digitsValue (digits : List Char) : Nat :=
  digits.foldl (fun n c => 10 * n + (c.toNat - '0'.toNat)) 0

/-- Take a sign off; no sign is a plus. -/
def takeSign : List Char → Bool × List Char
  | '-' :: rest => (true, rest)
  | '+' :: rest => (false, rest)
  | rest => (false, rest)

/-- The power of ten at the end of a number, zero if there is none.  The letter must
be followed by a digit, after an optional sign. -/
def power? : List Char → Option Int
  | [] => some 0
  | c :: rest =>
    if c = 'e' ∨ c = 'E' then
      let (negative, rest) := takeSign rest
      let (digits, rest) := spanDigits rest
      if digits.isEmpty ∨ !rest.isEmpty then none
      else some (if negative then -(digitsValue digits) else digitsValue digits)
    else none

/-- Digits and a power of ten, for text without a sign. -/
def unsigned? (text : List Char) : Option (Nat × Int) :=
  let (whole, rest) := spanDigits text
  let (fraction, rest) := match rest with
    | '.' :: rest => spanDigits rest
    | rest => ([], rest)
  if whole.isEmpty ∧ fraction.isEmpty then none
  else (power? rest).map fun power =>
    (digitsValue (whole ++ fraction), power - fraction.length)

/-- The double nearest to `digits * 10 ^ power`.  Powers far outside the range of
doubles are decided without computing them. -/
def nearest (digits : Nat) (power : Int) : Float :=
  let size : Int := power + (Nat.toDigits 10 digits).length
  if digits = 0 ∨ size < -400 then 0
  else if 400 < size then 1 / 0
  else Float.ofScientific digits (power < 0) power.natAbs

/-- The words that stand for numbers, whatever their case. -/
def word? (text : List Char) : Option Float :=
  match String.ofList (text.map Char.toLower) with
  | "inf" | "infinity" => some (1 / 0)
  | "nan" => some (0 / 0)
  | _ => none

/-- The double that a text spells. -/
def read? (text : String) : Option Float :=
  let (negative, rest) := takeSign text.toList
  let magnitude := match word? rest with
    | some x => some x
    | none => (unsigned? rest).map fun (digits, power) => nearest digits power
  magnitude.map fun x => if negative then -x else x

end Decimal
end Correlator
