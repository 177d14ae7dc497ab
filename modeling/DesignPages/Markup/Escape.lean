/-!
# Escaping texts in markup

This module escapes a text for the two places where it can stand in markup: between tags, and inside
a quoted attribute value.  Braces are escaped in both, so that no text opens an expression.
-/

namespace DesignPages
namespace Markup

/-- A character between tags. -/
def escapeTextChar (c : Char) : List Char :=
  if c = '&' then "&amp;".toList
  else if c = '<' then "&lt;".toList
  else if c = '>' then "&gt;".toList
  else if c = '\x7b' then "&#123;".toList
  else if c = '\x7d' then "&#125;".toList
  else [c]

/-- A character inside a quoted attribute value. -/
def escapeAttributeChar (c : Char) : List Char :=
  if c = '"' then "&quot;".toList else escapeTextChar c

/-- A text between tags. -/
def escapeText (cs : List Char) : List Char :=
  cs.flatMap escapeTextChar

/-- A text inside a quoted attribute value. -/
def escapeAttribute (cs : List Char) : List Char :=
  cs.flatMap escapeAttributeChar

end Markup
end DesignPages
