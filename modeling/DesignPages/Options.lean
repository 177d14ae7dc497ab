import DesignPages.Frame.Classification

/-!
# Options

This module holds the options of a compilation and their standard values.
-/

namespace DesignPages

/-- The options of a page: its title, its language, the folder from which it imports components, and
the script for the style sheets, if there is to be one. -/
structure PageOptions where
  title : String
  lang : String
  componentsDir : String
  script : Option String
  deriving DecidableEq, Repr

/-- The page options that apply unless others are given. -/
def PageOptions.standard : PageOptions :=
  ⟨"Generated from Figma", "en", "./components", some "https://cdn.tailwindcss.com"⟩

/-- The options of a compilation. -/
structure Options where
  page : PageOptions
  areas : AreaBounds
  deriving DecidableEq, Repr

/-- The options that apply unless others are given. -/
def Options.standard : Options :=
  ⟨.standard, .standard⟩

end DesignPages
