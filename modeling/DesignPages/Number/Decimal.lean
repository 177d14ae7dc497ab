import DesignPages.Number.Binary

/-!
# Shortest decimals

This module finds the decimal with the fewest digits that still denotes a given binary number.  The
numbers that round to `m * 2 ^ q` form an interval around it.  For one, two, three, … digits the two
neighbours of the value on that decimal grid are tried; the first grid with a neighbour in the
interval wins, and of two neighbours the nearer one.
-/

namespace DesignPages
namespace Number

/-- The decimal `digits * 10 ^ exponent`. -/
structure Decimal where
  digits : Nat
  exponent : Int
  deriving DecidableEq, Repr

/-- Where an exact tie between two decimals goes. -/
inductive Tie where
  | toEven
  | up
  deriving DecidableEq, Repr

/-- The number of decimal digits of a number. -/
def digitCount (n : Nat) : Nat :=
  (Nat.toDigits 10 n).length

/-- A positive binary number with the ends of its rounding interval, all as multiples of
`numerator / denominator`. -/
structure Interval where
  below : Nat
  value : Nat
  above : Nat
  numerator : Nat
  denominator : Nat
  closed : Bool

/-- The rounding interval of `significand * 2 ^ exponent` in units of a quarter of its last place.
Below a power of two the neighbours lie twice as close. -/
def Interval.around (f : Format) (significand : Nat) (exponent : Int) : Interval where
  below :=
    if significand = twoPow f.fractionBits ∧ f.leastExponent < exponent then 4 * significand - 1
    else 4 * significand - 2
  value := 4 * significand
  above := 4 * significand + 2
  numerator := twoPow (exponent - 2).toNat
  denominator := twoPow (2 - exponent).toNat
  closed := significand % 2 == 0

namespace Interval

/-- The power of ten of the first digit of the value. -/
def leadingExponent (i : Interval) : Int :=
  let n := i.value * i.numerator
  if i.denominator ≤ n then
    (digitCount (n / i.denominator) : Int) - 1
  else
    Int.neg (digitCount ((i.denominator + n - 1) / n - 1))

/-- A multiple of the unit, scaled so that it can be compared with a decimal of that exponent. -/
def scaled (i : Interval) (multiple : Nat) (exponent : Int) : Nat :=
  multiple * i.numerator * tenPow (-exponent).toNat

/-- Some digits at an exponent, on the same scale. -/
def scaledDigits (i : Interval) (digits : Nat) (exponent : Int) : Nat :=
  digits * tenPow exponent.toNat * i.denominator

/-- Whether the decimal reads back as the value. -/
def holds (i : Interval) (d : Decimal) : Bool :=
  let x := i.scaledDigits d.digits d.exponent
  let low := i.scaled i.below d.exponent
  let high := i.scaled i.above d.exponent
  (low < x && x < high) || (i.closed && (x == low || x == high))

/-- The decimal on the grid of `exponent` that is next to the value and reads back, if any. -/
def onGrid (i : Interval) (tie : Tie) (exponent : Int) : Option Decimal :=
  let value := i.scaled i.value exponent
  let unit := i.scaledDigits 1 exponent
  let low : Decimal := ⟨value / unit, exponent⟩
  let high : Decimal := ⟨value / unit + 1, exponent⟩
  match i.holds low, i.holds high with
  | false, false => none
  | true, false => some low
  | false, true => some high
  | true, true =>
    let rest := 2 * (value % unit)
    if rest < unit then some low
    else if unit < rest then some high
    else match tie with
      | .up => some high
      | .toEven => if low.digits % 2 = 0 then some low else some high

end Interval

/-- Drops the zeros at the end of the digits, at most `fuel` of them. -/
def Decimal.strip : Nat → Decimal → Decimal
  | 0, d => d
  | fuel + 1, d =>
    if d.digits ≠ 0 ∧ d.digits % 10 = 0 then strip fuel ⟨d.digits / 10, d.exponent + 1⟩ else d

/-- The decimal with the fewest digits that denotes the positive number
`significand * 2 ^ exponent` of the format. -/
def shortest (f : Format) (tie : Tie) (significand : Nat) (exponent : Int) : Decimal :=
  let i := Interval.around f significand exponent
  let lead := i.leadingExponent
  let found := (List.range 20).findSome? fun (n : Nat) => i.onGrid tie (lead - n)
  (found.getD ⟨0, 0⟩).strip 20

end Number
end DesignPages
