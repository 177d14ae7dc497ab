import DesignPages.Text.Hex

/-!
# Form encoding

This module holds the encoding of a text as one value of a query: letters, digits and `* - . _`
stand for themselves, a space becomes `+`, and every other byte of the UTF-8 form becomes `%` with
its two hexadecimal digits.
-/

namespace DesignPages
namespace Text

/-- The bytes that the encoding leaves as they are. -/
def isFormSafe (b : UInt8) : Bool :=
  (0x30 ≤ b && b ≤ 0x39) || (0x41 ≤ b && b ≤ 0x5A) || (0x61 ≤ b && b ≤ 0x7A) ||
    b == 0x2A || b == 0x2D || b == 0x2E || b == 0x5F

/-- The encoded form of one byte. -/
def formEncodeByte (b : UInt8) : List Char :=
  if isFormSafe b then [Char.ofNat b.toNat]
  else if b == 0x20 then ['+']
  else '%' :: hexByteUpper b

/-- The encoded form of a list of bytes. -/
def formEncodeBytes (bytes : List UInt8) : List Char :=
  bytes.flatMap formEncodeByte

/-- The encoded form of a text. -/
def formEncode (s : String) : String :=
  String.ofList (formEncodeBytes s.toUTF8.data.toList)

end Text
end DesignPages
