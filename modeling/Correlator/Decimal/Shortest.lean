import Correlator.Decimal.Value

/-!
# Fewest digits that read back

A decimal reads back as a double when it lies in the interval of numbers that round
to that double.  `shortest` tries one digit, two digits and so on, and takes the
first decimal that lies in the interval, the nearer one if there are two.
-/

namespace Correlator
namespace Decimal

/-- The number `digits * 10 ^ exponent`. -/
structure Digits where
  digits : Nat
  exponent : Int
deriving DecidableEq, Repr

/-- The positive number `units * numerator / denominator`, with the interval of the
numbers that round to it, whose ends lie at `low` and `high` units. -/
structure Interval where
  low : Nat
  units : Nat
  high : Nat
  numerator : Nat
  denominator : Nat
  closed : Bool

/-- The interval around `significand * 2 ^ exponent`.  A unit is a quarter of the
spacing, because the spacing below a power of two is half of that above it.  The ends
belong to the interval when ties go to this number, which is when it is even. -/
def Interval.around (significand : Nat) (exponent : Int) : Interval where
  low := 4 * significand - if significand = 2 ^ 52 ∧ exponent ≠ -1074 then 1 else 2
  units := 4 * significand
  high := 4 * significand + 2
  numerator := 2 ^ (exponent - 2).toNat
  denominator := 2 ^ (2 - exponent).toNat
  closed := significand % 2 = 0

/-- Whether `candidate * 10 ^ exponent` lies in the interval. -/
def Interval.contains (i : Interval) (candidate : Nat) (exponent : Int) : Bool :=
  let point := candidate * i.denominator * 10 ^ exponent.toNat
  let unit := i.numerator * 10 ^ (-exponent).toNat
  if i.closed then i.low * unit ≤ point && point ≤ i.high * unit
  else i.low * unit < point && point < i.high * unit

/-- The number of decimal digits of a positive number. -/
def digitCount (n : Nat) : Nat := (Nat.toDigits 10 n).length

/-- The `p` with `10 ^ (p - 1) ≤ numerator / denominator < 10 ^ p`. -/
def magnitude (numerator denominator : Nat) : Int :=
  if denominator ≤ numerator then digitCount (numerator / denominator)
  else
    let d := digitCount (denominator / numerator)
    if denominator ≤ numerator * 10 ^ (d - 1) then 2 - (d : Int) else 1 - (d : Int)

/-- Of the two neighbours on the grid `10 ^ exponent`, the one that lies in the
interval; of two the nearer, and the upper one if they are equally near. -/
def Interval.candidate? (i : Interval) (exponent : Int) : Option Digits :=
  let top := i.units * i.numerator * 10 ^ (-exponent).toNat
  let step := i.denominator * 10 ^ exponent.toNat
  let below := top / step
  let above := below + 1
  let upper := step ≤ 2 * (top % step)
  match i.contains below exponent, i.contains above exponent with
  | true, true => some ⟨if upper then above else below, exponent⟩
  | true, false => some ⟨below, exponent⟩
  | false, true => some ⟨above, exponent⟩
  | false, false => none

/-- The first grid with a hit, from `count` digits on. -/
def Interval.search (i : Interval) (magnitude : Int) : Nat → Nat → Digits
  | 0, count => ⟨0, magnitude - count⟩
  | fuel + 1, count =>
    match i.candidate? (magnitude - count) with
    | some found => found
    | none => i.search magnitude fuel (count + 1)

/-- Zeros at the end of the digits belong to the exponent. -/
def Digits.trim : Nat → Digits → Digits
  | 0, d => d
  | fuel + 1, d =>
    if d.digits ≠ 0 ∧ d.digits % 10 = 0 then
      Digits.trim fuel ⟨d.digits / 10, d.exponent + 1⟩
    else d

/-- The shortest decimal that reads back as `significand * 2 ^ exponent`; seventeen
digits always do. -/
def shortest (significand : Nat) (exponent : Int) : Digits :=
  if significand = 0 then ⟨0, 0⟩
  else
    let i := Interval.around significand exponent
    Digits.trim 20 (i.search (magnitude (i.units * i.numerator) i.denominator) 17 1)

end Decimal
end Correlator
