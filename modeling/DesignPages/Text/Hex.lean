/-!
# Hexadecimal digits

This module holds the two alphabets of hexadecimal digits and numbers written with them.
-/

namespace DesignPages
namespace Text

/-- The lower-case digit of a value below sixteen. -/
def hexDigitLower (n : Nat) : Char :=
  "0123456789abcdef".toList.getD n '0'

/-- The upper-case digit of a value below sixteen. -/
def hexDigitUpper (n : Nat) : Char :=
  "0123456789ABCDEF".toList.getD n '0'

/-- The value of a hexadecimal digit of either case. -/
def hexValue? (c : Char) : Option Nat :=
  if '0' ≤ c ∧ c ≤ '9' then some (c.toNat - '0'.toNat)
  else if 'a' ≤ c ∧ c ≤ 'f' then some (c.toNat - 'a'.toNat + 10)
  else if 'A' ≤ c ∧ c ≤ 'F' then some (c.toNat - 'A'.toNat + 10)
  else none

/-- The last `width` lower-case digits of a number, highest first. -/
def hexLower : Nat → Nat → List Char
  | 0, _ => []
  | width + 1, n => hexLower width (n / 16) ++ [hexDigitLower (n % 16)]

/-- The two upper-case digits of a byte. -/
def hexByteUpper (b : UInt8) : List Char :=
  [hexDigitUpper (b.toNat / 16), hexDigitUpper (b.toNat % 16)]

end Text
end DesignPages
