import DesignPages.Category

/-!
# Components

This module holds a component as it goes onto a page.
-/

namespace DesignPages

/-- A component that was written from a frame. -/
structure Component where
  /-- The id of the frame. -/
  id : String
  /-- The name that the author gave to the frame. -/
  originalName : String
  category : Category
  /-- The name under which the page imports the component. -/
  name : String
  source : String
  /-- The texts from which the component was written. -/
  texts : List String
  deriving DecidableEq, Repr

/-- The file of a component. -/
def Component.fileName (c : Component) : String :=
  c.name ++ ".astro"

end DesignPages
