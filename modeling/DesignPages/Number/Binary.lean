/-!
# Binary floating-point numbers taken apart

This module reads the bits of a floating-point number as an exact value, a sign and a natural
number times a power of two, and rounds a quotient of natural numbers into a format.  The two
formats in use are the double and the single one; `narrow` carries a double over to the nearest
single.
-/

namespace DesignPages
namespace Number

/-- A power of two. -/
def twoPow (n : Nat) : Nat :=
  Nat.pow 2 n

/-- A power of ten. -/
def tenPow (n : Nat) : Nat :=
  Nat.pow 10 n

/-- A binary interchange format, given by the widths of its two fields. -/
structure Format where
  fractionBits : Nat
  exponentBits : Nat

/-- The format of `Float`. -/
def double : Format := ⟨52, 11⟩

/-- The format of `Float32`. -/
def single : Format := ⟨23, 8⟩

/-- What the bits of a number stand for.  A finite number is `significand * 2 ^ exponent`. -/
inductive Datum where
  | nan
  | infinite (negative : Bool)
  | finite (negative : Bool) (significand : Nat) (exponent : Int)
  deriving DecidableEq, Repr

namespace Format

/-- The value of the exponent field that marks infinities and NaN. -/
def specialExponent (f : Format) : Nat :=
  twoPow f.exponentBits - 1

/-- The power of two of the last digit of the smallest numbers. -/
def leastExponent (f : Format) : Int :=
  2 - (twoPow (f.exponentBits - 1) : Int) - f.fractionBits

/-- The bits below the sign as a pair of exponent field and fraction field. -/
def fields (f : Format) (bits : Nat) : Nat × Nat :=
  (bits / twoPow f.fractionBits % twoPow f.exponentBits, bits % twoPow f.fractionBits)

/-- The value that the bits stand for. -/
def datum (f : Format) (bits : Nat) : Datum :=
  let negative := bits / twoPow (f.fractionBits + f.exponentBits) % 2 == 1
  let (exponent, fraction) := f.fields bits
  if exponent = f.specialExponent then
    if fraction = 0 then .infinite negative else .nan
  else if exponent = 0 then
    .finite negative fraction f.leastExponent
  else
    .finite negative (twoPow f.fractionBits + fraction) (f.leastExponent + exponent - 1)

end Format

/-- `n / d` rounded to the nearest whole number, a half to the even one. -/
def roundToEven (n d : Nat) : Nat :=
  let quotient := n / d
  let rest := n % d
  if 2 * rest < d ∨ (2 * rest = d ∧ quotient % 2 = 0) then quotient else quotient + 1

/-- The exponent of the greatest power of two that is not above the positive number `n / d`. -/
def floorLog (n d : Nat) : Int :=
  let guess : Int := (Nat.log2 n : Int) - Nat.log2 d
  if n * twoPow (-guess).toNat < d * twoPow guess.toNat then guess - 1 else guess

namespace Format

/-- The bits of infinity without the sign. -/
def infinity (f : Format) : Nat :=
  f.specialExponent * twoPow f.fractionBits

/-- The power of two of the last digit of the number of the format that is nearest to `n / d`. -/
def targetExponent (f : Format) (n d : Nat) : Int :=
  max f.leastExponent (floorLog n d - f.fractionBits)

/-- The bits, without the sign, of the number of the format that is nearest to `n / d`; beyond the
largest number stands infinity. -/
def magnitude (f : Format) (n d : Nat) : Nat :=
  if n = 0 then 0
  else
    let target := f.targetExponent n d
    let rounded := roundToEven (n * twoPow (-target).toNat) (d * twoPow target.toNat)
    min f.infinity ((target - f.leastExponent).toNat * twoPow f.fractionBits + rounded)

/-- The sign bit in its place. -/
def sign (f : Format) (negative : Bool) : Nat :=
  if negative then twoPow (f.fractionBits + f.exponentBits) else 0

/-- The bits of the number of the format that is nearest to a value. -/
def bits (f : Format) : Datum → Nat
  | .nan => f.infinity + twoPow (f.fractionBits - 1)
  | .infinite negative => f.sign negative + f.infinity
  | .finite negative significand exponent =>
    f.sign negative +
      f.magnitude (significand * twoPow exponent.toNat) (twoPow (-exponent).toNat)

/-- The bits, without the sign, of the product of two numbers that are given by their bits.  Neither is
infinite or NaN. -/
def times (f : Format) (x y : Nat) : Nat :=
  match f.datum x, f.datum y with
  | .finite _ m q, .finite _ n p =>
    f.magnitude (m * n * twoPow (q + p).toNat) (twoPow (-(q + p)).toNat)
  | _, _ => f.infinity

/-- The bits, without the sign, of the quotient of two numbers that are given by their bits.  Neither is
infinite or NaN, and the second is not zero. -/
def dividedBy (f : Format) (x y : Nat) : Nat :=
  match f.datum x, f.datum y with
  | .finite _ m q, .finite _ n p =>
    f.magnitude (m * twoPow (q - p).toNat) (n * twoPow (p - q).toNat)
  | _, _ => f.infinity

end Format

/-- The double with the bits. -/
def doubleOfBits (bits : Nat) : Float :=
  Float.ofBits (UInt64.ofNat bits)

/-- The single with the bits. -/
def singleOfBits (bits : Nat) : Float32 :=
  Float32.ofBits (UInt32.ofNat bits)

/-- The value of a double. -/
def ofDouble (x : Float) : Datum :=
  double.datum x.toBits.toNat

/-- The value of a single. -/
def ofSingle (x : Float32) : Datum :=
  single.datum x.toBits.toNat

/-- The single nearest to a double, a tie going to the even one. -/
def narrow (x : Float) : Float32 :=
  singleOfBits (single.bits (ofDouble x))

end Number
end DesignPages
