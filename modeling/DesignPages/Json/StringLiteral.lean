import DesignPages.Text.Hex

/-!
# String literals

This module holds the writing of a text as a string literal of JSON, which is a string literal of a
script as well.  Quotes, backslashes and controls are escaped; every other character stands for
itself.
-/

namespace DesignPages
namespace Json

/-- One character inside a string literal. -/
def escapeChar (c : Char) : List Char :=
  if c = '"' then ['\\', '"']
  else if c = '\\' then ['\\', '\\']
  else if c = '\x08' then ['\\', 'b']
  else if c = '\x0c' then ['\\', 'f']
  else if c = '\n' then ['\\', 'n']
  else if c = '\r' then ['\\', 'r']
  else if c = '\t' then ['\\', 't']
  else if c.toNat < 0x20 then '\\' :: 'u' :: Text.hexLower 4 c.toNat
  else [c]

/-- The characters of a string literal, its quotes included. -/
def stringLiteralChars (cs : List Char) : List Char :=
  '"' :: cs.flatMap escapeChar ++ ['"']

/-- The string literal that denotes a text. -/
def stringLiteral (s : String) : String :=
  String.ofList (stringLiteralChars s.toList)

end Json
end DesignPages
