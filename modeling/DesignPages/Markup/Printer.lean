import DesignPages.Markup.Element
import DesignPages.Markup.Escape

/-!
# Printing markup

This module prints markup line by line, with two spaces of indentation a level.
-/

namespace DesignPages
namespace Markup

/-- The characters of an expression between its braces. -/
def Expression.body : Expression → List Char
  | param p => p.name.toList
  | initial p => p.name.toList ++ ".charAt(0)".toList
  | currentYear => "new Date().getFullYear()".toList
  | generator => "Astro.generator".toList

/-- The characters of an expression. -/
def Expression.chars (e : Expression) : List Char :=
  '\x7b' :: e.body ++ ['\x7d']

/-- The characters of the value of an attribute. -/
def AttributeValue.chars : AttributeValue → List Char
  | text s => '"' :: escapeAttribute s.toList ++ ['"']
  | expression e => e.chars

/-- The characters of an attribute, with the space before it. -/
def Attribute.chars (a : Attribute) : List Char :=
  ' ' :: a.name.toList ++ '=' :: a.value.chars

/-- The characters of attributes. -/
def attributesChars (as : List Attribute) : List Char :=
  as.flatMap Attribute.chars

/-- The characters of an inline piece. -/
def Inline.chars : Inline → List Char
  | text s => escapeText s.toList
  | copyrightSign => "&copy;".toList
  | expression e => e.chars

/-- The characters of inline content. -/
def inlineChars (content : List Inline) : List Char :=
  content.flatMap Inline.chars

/-- An opening tag. -/
def openTag (tag : String) (attributes : List Attribute) : List Char :=
  '<' :: tag.toList ++ attributesChars attributes ++ ['>']

/-- A closing tag. -/
def closeTag (tag : String) : List Char :=
  '<' :: '/' :: tag.toList ++ ['>']

/-- The tag of an element without content. -/
def voidTag (tag : String) (attributes : List Attribute) : List Char :=
  '<' :: tag.toList ++ attributesChars attributes ++ " />".toList

/-- The spaces in front of a line. -/
def indentation (level : Nat) : List Char :=
  List.replicate (2 * level) ' '

mutual

/-- The lines of an element. -/
def Element.lines (level : Nat) : Element → List (List Char)
  | .line content => [indentation level ++ inlineChars content]
  | .inline tag attributes content =>
    [indentation level ++ openTag tag attributes ++ inlineChars content ++ closeTag tag]
  | .void tag attributes => [indentation level ++ voidTag tag attributes]
  | .block tag attributes children =>
    (indentation level ++ openTag tag attributes) ::
      linesOfAll (level + 1) children ++ [indentation level ++ closeTag tag]

/-- The lines of elements one after the other. -/
def linesOfAll (level : Nat) : List Element → List (List Char)
  | [] => []
  | e :: es => Element.lines level e ++ linesOfAll level es

end

/-- Lines with line breaks between them. -/
def joinLines (lines : List (List Char)) : List Char :=
  ['\n'].intercalate lines

end Markup
end DesignPages
