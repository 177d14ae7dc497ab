import DesignPages.Json.StringLiteral
import DesignPages.Markup.Printer

/-!
# Sources of components

This module holds the source of a component as data: the parameters that it declares, each with its
default, and its root element.  Printed, the declarations stand between two fences in front of the
markup.
-/

namespace DesignPages

/-- The source of a component. -/
structure ComponentSource where
  defaults : List (Markup.Param × String)
  root : Markup.Element
  deriving Repr

namespace ComponentSource

/-- The line before and after the declarations. -/
def fence : List Char := "---".toList

/-- A parameter with its default. -/
def defaultChars (d : Markup.Param × String) : List Char :=
  d.1.name.toList ++ " = ".toList ++ Json.stringLiteralChars d.2.toList

/-- The line that declares the parameters. -/
def declaration (ds : List (Markup.Param × String)) : List Char :=
  "const \x7b ".toList ++ (", ".toList).intercalate (ds.map defaultChars) ++
    " \x7d = Astro.props;".toList

/-- The lines of the source. -/
def lines (s : ComponentSource) : List (List Char) :=
  [fence, declaration s.defaults, fence] ++ s.root.lines 0

/-- The characters of the source. -/
def chars (s : ComponentSource) : List Char :=
  Markup.joinLines s.lines

/-- The text of the source. -/
def text (s : ComponentSource) : String :=
  String.ofList s.chars

end ComponentSource
end DesignPages
