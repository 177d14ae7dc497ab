import DesignPages.Number.Binary

/-!
# Significands scaled by powers of ten

This module works out a double for a significand and a power of ten in the quick way: the significand
is rounded to a double, which is multiplied with the power as a double or divided by it.  Every step
rounds, so that what comes out is not always the nearest double.  A power that doubles cannot express
is divided by in several steps.
-/

namespace DesignPages
namespace Number

/-- The exponent of the largest power of ten below infinity. -/
def topPower : Nat := 308

/-- The bits of the double nearest to a power of ten. -/
def powerBits (k : Nat) : Nat :=
  double.magnitude (tenPow k) 1

/-- Divides by the largest power of ten, one time after the other as long as anything is left. -/
def divideByTop : Nat → Nat → Nat
  | 0, x => x
  | steps + 1, x => if x = 0 then 0 else divideByTop steps (double.dividedBy x (powerBits topPower))

/-- The bits, without the sign, of the double that is worked out for `significand * 10 ^ exponent`.
There is none if it gets beyond the largest double. -/
def scaledBits? (significand : Nat) (exponent : Int) : Option Nat :=
  let x := double.magnitude significand 1
  if x = 0 then some 0
  else if topPower < exponent then none
  else if 0 ≤ exponent then
    let y := double.times x (powerBits exponent.toNat)
    if y = double.infinity then none else some y
  else
    let k := (-exponent).toNat
    let steps := (k - 1) / topPower
    some (double.dividedBy (divideByTop steps x) (powerBits (k - topPower * steps)))

end Number
end DesignPages
