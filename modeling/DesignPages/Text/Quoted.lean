import DesignPages.Text.HiddenTable
import DesignPages.Text.Hex

/-!
# Quoted texts

This module holds the form in which a message quotes a text: between double quotes, with a
backslash before quotes and backslashes, short forms for the common controls, and the number of any
other character that has no form of its own.
-/

namespace DesignPages
namespace Text

/-- Whether a quoted text shows the character by its number. -/
def isHidden (c : Char) : Bool :=
  hiddenRanges.any fun r => r.1 ≤ c.toNat && c.toNat ≤ r.2

/-- The hexadecimal digits of a number without leading zeros. -/
def hexShort (n : Nat) : List Char :=
  Nat.toDigits 16 n

/-- One character of a quoted text. -/
def quotedChar (c : Char) : List Char :=
  if c = '"' then ['\\', '"']
  else if c = '\\' then ['\\', '\\']
  else if c = '\n' then ['\\', 'n']
  else if c = '\r' then ['\\', 'r']
  else if c = '\t' then ['\\', 't']
  else if c = '\x00' then ['\\', '0']
  else if isHidden c then ['\\', 'u', '\x7b'] ++ hexShort c.toNat ++ ['\x7d']
  else [c]

/-- A text as messages quote it. -/
def quoted (s : String) : String :=
  String.ofList ('"' :: s.toList.flatMap quotedChar ++ ['"'])

end Text
end DesignPages
