import DesignPages.Number.Decimal
import DesignPages.Number.Scaling

/-!
# Number literals of JSON

This module holds the spelling of a number in JSON, the number that a literal denotes, and the
literals in which integers and floating-point numbers are written.  A literal without fraction and
exponent that fits 64 bits denotes an integer; every other literal denotes a double, unless it lies
beyond the largest one.  That double is worked out from as many digits as 64 bits have room for, and
it is not always the one that is nearest to the literal.
-/

namespace DesignPages
namespace Json

/-- The spelling of a number: a sign, the digits before the point, the digits after it (none if
there is no point), and the sign and digits of an exponent. -/
structure Literal where
  negative : Bool
  whole : List Char
  fraction : List Char
  exponent : Option (Bool × List Char)
  deriving DecidableEq, Repr

/-- What a literal denotes. -/
inductive Number where
  | integer (value : Int)
  | decimal (value : Float)
  deriving DecidableEq, Repr

/-- The value of a list of decimal digits. -/
def digitsValue (ds : List Char) : Nat :=
  ds.foldl (fun n c => 10 * n + (c.toNat - '0'.toNat)) 0

/-- The number as a double. -/
def Number.toDouble : Number → Float
  | .integer n => Number.doubleOfBits (Number.double.bits (.finite (n < 0) n.natAbs 0))
  | .decimal x => x

/-- The number as a single. -/
def Number.toSingle : Number → Float32
  | .integer n => Number.singleOfBits (Number.single.bits (.finite (n < 0) n.natAbs 0))
  | .decimal x => Number.narrow x

/-- Puts digits behind a significand as long as it fits 64 bits: the significand, and the digits that
are left over. -/
def takeDigits : Nat → List Char → Nat × List Char
  | n, [] => (n, [])
  | n, c :: cs =>
    let next := 10 * n + (c.toNat - '0'.toNat)
    if next < Number.twoPow 64 then takeDigits next cs else (n, c :: cs)

namespace Literal

/-- The text of an exponent. -/
def exponentText : Option (Bool × List Char) → List Char
  | none => []
  | some (negative, ds) => 'e' :: (if negative then '-' else '+') :: ds

/-- The text of a literal. -/
def text (l : Literal) : List Char :=
  (if l.negative then ['-'] else []) ++ l.whole ++
    (if l.fraction = [] then [] else '.' :: l.fraction) ++ exponentText l.exponent

/-- The power of ten that the exponent gives. -/
def scale (l : Literal) : Int :=
  match l.exponent with
  | none => 0
  | some (negative, ds) => if negative then -(digitsValue ds : Int) else digitsValue ds

/-- The significand and the power of ten that the double is worked out from.  A digit before the point
that is left over raises the power, and one behind the point is ignored. -/
def parts (l : Literal) : Nat × Int :=
  let (whole, dropped) := takeDigits 0 l.whole
  let (significand, ignored) := takeDigits whole l.fraction
  let places : Int := l.fraction.length - ignored.length
  (significand, dropped.length - places + l.scale)

/-- The double that a literal denotes, if it is not beyond the largest one. -/
def double? (l : Literal) : Option Float :=
  let (significand, exponent) := l.parts
  (Number.scaledBits? significand exponent).map fun magnitude =>
    Number.doubleOfBits (Number.double.sign l.negative + magnitude)

/-- The integer that a literal denotes: it has neither fraction nor exponent, and it fits 64 bits,
with a sign if it is negative.  A zero with a sign is no integer. -/
def integer? (l : Literal) : Option Int :=
  if l.fraction ≠ [] ∨ l.exponent ≠ none then none
  else
    let n := digitsValue l.whole
    if l.negative then
      if 0 < n ∧ n ≤ Number.twoPow 63 then some (-(n : Int)) else none
    else if n < Number.twoPow 64 then some n
    else none

/-- The number that a literal denotes, if it is not beyond the largest double. -/
def number? (l : Literal) : Option Number :=
  match l.integer? with
  | some n => some (.integer n)
  | none => l.double?.map .decimal

/-- The literal of an integer. -/
def ofInt (n : Int) : Literal :=
  ⟨n < 0, Nat.toDigits 10 n.natAbs, [], none⟩

/-- Lays a decimal out: with a point and no exponent from `0.00001` up to sixteen digits before the
point, and with one digit before the point and an exponent elsewhere. -/
def ofDecimal (negative : Bool) (d : Number.Decimal) : Literal :=
  let ds := Nat.toDigits 10 d.digits
  let lead : Int := ds.length - 1 + d.exponent
  if d.digits = 0 then ⟨negative, ['0'], ['0'], none⟩
  else if -5 ≤ lead ∧ lead < 16 then
    if 0 ≤ d.exponent then
      ⟨negative, ds ++ List.replicate d.exponent.toNat '0', ['0'], none⟩
    else if 0 ≤ lead then
      ⟨negative, ds.take (lead.toNat + 1), ds.drop (lead.toNat + 1), none⟩
    else
      ⟨negative, ['0'], List.replicate (-lead - 1).toNat '0' ++ ds, none⟩
  else
    ⟨negative, ds.take 1, ds.drop 1, some (lead < 0, Nat.toDigits 10 lead.natAbs)⟩

/-- The shortest literal of a value of the format, which infinities and NaN do not have. -/
def ofDatum? (f : Number.Format) : Number.Datum → Option Literal
  | .finite negative significand exponent =>
    if significand = 0 then some (ofDecimal negative ⟨0, 0⟩)
    else some (ofDecimal negative (Number.shortest f .toEven significand exponent))
  | _ => none

/-- The literal of a double. -/
def ofDouble? (x : Float) : Option Literal :=
  ofDatum? Number.double (Number.ofDouble x)

/-- The literal of a single. -/
def ofSingle? (x : Float32) : Option Literal :=
  ofDatum? Number.single (Number.ofSingle x)

end Literal
end Json
end DesignPages
