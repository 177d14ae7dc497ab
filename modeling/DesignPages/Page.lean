import DesignPages.Component.Basic
import DesignPages.Json.StringLiteral
import DesignPages.Markup.Printer
import DesignPages.Options

/-!
# Pages

This module puts components together to a page.  The first navbar leads the page and the first
footer closes it; all other components keep their order in between.
-/

namespace DesignPages

/-- The components of a page in the order of the page, and its source. -/
structure Page where
  components : List Component
  source : String
  deriving DecidableEq, Repr

/-- Two components with one name: the second of them. -/
structure NamingCollision where
  name : String
  id : String
  category : Category
  deriving DecidableEq, Repr

/-- The message about two components with one name. -/
def NamingCollision.message (e : NamingCollision) : String :=
  "Naming collision: component '" ++ e.name ++ "' (frame " ++ e.id ++ ", category " ++
    e.category.label ++ ") was emitted twice"

namespace Page

open Markup

/-- The file of a page. -/
def fileName : String := "index.astro"

/-- The first component whose name occurs before it, where `seen` holds the names before the
list. -/
def firstRepeated? (seen : List String) : List Component → Option Component
  | [] => none
  | c :: cs => if seen.contains c.name then some c else firstRepeated? (c.name :: seen) cs

/-- Takes the first component of a category out of a list. -/
def takeFirst (category : Category) : List Component → Option Component × List Component
  | [] => (none, [])
  | c :: cs =>
    if c.category = category then (some c, cs)
    else
      let (first, rest) := takeFirst category cs
      (first, c :: rest)

/-- Brings components into the order of the page. -/
def order (cs : List Component) : List Component :=
  let (navbar, rest) := takeFirst .navbar cs
  let (footer, others) := takeFirst .footer rest
  navbar.toList ++ others ++ footer.toList

/-- The name of a folder without the slashes at its end. -/
def trimSlashes (s : String) : String :=
  String.ofList (s.toList.reverse.dropWhile (· == '/')).reverse

/-- The path from which a page imports a component. -/
def importPath (componentsDir : String) (c : Component) : String :=
  trimSlashes componentsDir ++ "/" ++ c.fileName

/-- The line that imports a component. -/
def importLine (componentsDir : String) (c : Component) : List Char :=
  "import ".toList ++ c.name.toList ++ " from ".toList ++
    Json.stringLiteralChars (importPath componentsDir c).toList ++ [';']

/-- The script for the style sheets. -/
def script (src : String) : Element :=
  .inline "script" [.text "src" src] []

/-- The head of the page. -/
def head (options : PageOptions) : Element :=
  .block "head" []
    ([.void "meta" [.text "charset" "utf-8"],
      .void "link"
        [.text "rel" "icon", .text "type" "image/svg+xml", .text "href" "/favicon.svg"],
      .void "meta"
        [.text "name" "viewport", .text "content" "width=device-width, initial-scale=1.0"],
      .void "meta" [.text "name" "generator", ⟨"content", .expression .generator⟩],
      .inline "title" [] [.text options.title]] ++
      (options.script.map script).toList)

/-- The body of the page, with the tag of every component. -/
def body (cs : List Component) : Element :=
  .block "body" [.text "class" "bg-gray-100 min-h-screen"]
    [.block "div" [.text "class" "container mx-auto px-4 py-8"]
      (cs.map fun c => .void c.name [])]

/-- The markup of the page. -/
def html (options : PageOptions) (cs : List Component) : Element :=
  .block "html" [.text "lang" options.lang] [head options, body cs]

/-- The lines of the source of a page. -/
def lines (options : PageOptions) (cs : List Component) : List (List Char) :=
  ["---".toList] ++ cs.map (importLine options.componentsDir) ++ ["---".toList, []] ++
    (html options cs).lines 0

/-- The source of a page. -/
def sourceOf (options : PageOptions) (cs : List Component) : String :=
  String.ofList (joinLines (lines options cs))

/-- Puts components together to a page.  Two components with one name collide. -/
def assemble (options : PageOptions) (cs : List Component) : Except NamingCollision Page :=
  match firstRepeated? [] cs with
  | some c => .error ⟨c.name, c.id, c.category⟩
  | none =>
    let ordered := order cs
    .ok ⟨ordered, sourceOf options ordered⟩

end Page
end DesignPages
