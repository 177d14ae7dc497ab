import DesignPages.Number.Decimal

/-!
# Lengths in pixels

This module holds the text of a length in a class name.  A whole number is written with all its
digits, any other number with the fewest that denote it, and neither with an exponent.
-/

namespace DesignPages
namespace Pixels

/-- The digits of a decimal with a point and no exponent. -/
def positional (d : Number.Decimal) : List Char :=
  let ds := Nat.toDigits 10 d.digits
  let lead : Int := ds.length + d.exponent
  if 0 ≤ d.exponent then ds ++ List.replicate d.exponent.toNat '0'
  else if 0 < lead then ds.take lead.toNat ++ '.' :: ds.drop lead.toNat
  else '0' :: '.' :: List.replicate (-lead).toNat '0' ++ ds

/-- The digits of `significand * 2 ^ exponent` if that is a whole number. -/
def whole? (significand : Nat) (exponent : Int) : Option (List Char) :=
  if 0 ≤ exponent then some (Nat.toDigits 10 (significand * Number.twoPow exponent.toNat))
  else
    let unit := Number.twoPow (-exponent).toNat
    if significand % unit = 0 then some (Nat.toDigits 10 (significand / unit)) else none

/-- The characters of a length. -/
def chars (x : Float) : List Char :=
  match Number.ofDouble x with
  | .nan => "NaN".toList
  | .infinite negative => (if negative then "-inf" else "inf").toList
  | .finite negative significand exponent =>
    (if negative then ['-'] else []) ++
      ((whole? significand exponent).getD
        (positional (Number.shortest Number.double .up significand exponent)))

end Pixels
end DesignPages
