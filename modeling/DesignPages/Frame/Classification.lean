import DesignPages.Category
import DesignPages.Design.Paint
import DesignPages.Text.Lowercase

/-!
# Classifying frames

This module gives a frame its category.  The name decides if a keyword occurs in it; of several the
group with the highest priority wins and the others are reported as shadowed.  Otherwise the area of
the frame decides, and a frame without a box is a card.
-/

namespace DesignPages

/-- The areas, in square pixels, above which a frame without a keyword is a section or a hero. -/
structure AreaBounds where
  sectionArea : Float
  heroArea : Float
  deriving DecidableEq, Repr

/-- The areas that apply unless others are given. -/
def AreaBounds.standard : AreaBounds := ⟨100000, 40000⟩

/-- What decided a classification. -/
inductive Signal where
  | keyword (word : String)
  | area (value : Float)
  | default
  deriving DecidableEq, Repr

/-- The category of a frame, what decided it, and the groups that matched with lower priority. -/
structure Classification where
  category : Category
  source : Signal
  shadowed : List Category
  deriving DecidableEq, Repr

/-- Whether more than one group matched. -/
def Classification.isAmbiguous (c : Classification) : Bool :=
  !c.shadowed.isEmpty

namespace Classification

/-- The groups of keywords, the highest priority first. -/
def groups : List (Category × List String) :=
  [(.hero, ["hero"]),
   (.navbar, ["header", "navbar"]),
   (.footer, ["footer"]),
   (.aboutUs, ["about"]),
   (.newsletter, ["newsletter"]),
   (.blog, ["blog"]),
   (.testimonial, ["testimonial"]),
   (.gallery, ["gallery", "image"]),
   (.cta, ["cta"])]

/-- Whether the characters occur next to each other in a list. -/
def occursIn (word : List Char) : List Char → Bool
  | [] => word.isEmpty
  | c :: cs => word.isPrefixOf (c :: cs) || occursIn word cs

/-- The first keyword of a group that occurs in the lower-case name. -/
def keyword? (name : List Char) (group : Category × List String) : Option (Category × String) :=
  (group.2.find? fun word => occursIn word.toList name).map fun word => (group.1, word)

/-- The groups that match the lower-case name, each with its keyword. -/
def hits (name : List Char) : List (Category × String) :=
  groups.filterMap (keyword? name)

/-- The category of an area. -/
def categoryOfArea (bounds : AreaBounds) (area : Float) : Category :=
  if bounds.sectionArea < area then .plainSection
  else if bounds.heroArea < area then .hero
  else .card

/-- The category of a box. -/
def ofBox (bounds : AreaBounds) : Option Box → Classification
  | some box => ⟨categoryOfArea bounds box.area, .area box.area, []⟩
  | none => ⟨.card, .default, []⟩

/-- Classifies a frame by its name and box. -/
def ofFrame (bounds : AreaBounds) (name : String) (box : Option Box) : Classification :=
  match hits (Text.lowercaseChars name.toList) with
  | (category, word) :: others => ⟨category, .keyword word, others.map Prod.fst⟩
  | [] => ofBox bounds box

end Classification
end DesignPages
