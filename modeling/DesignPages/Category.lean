import DesignPages.Text.Blank

/-!
# Categories

This module holds the closed set of categories that a frame can belong to, their labels, and the
reading of a label: blanks around it and the case of its ASCII letters do not matter.
-/

namespace DesignPages

/-- What a frame is on a page. -/
inductive Category where
  | navbar
  | hero
  | footer
  | aboutUs
  | newsletter
  | blog
  | testimonial
  | gallery
  | cta
  | card
  | plainSection
  deriving DecidableEq, Repr, Inhabited

/-- How many components of a category one page may hold. -/
inductive Cardinality where
  | singleton
  | repeatable
  deriving DecidableEq, Repr

namespace Category

/-- Every category, in the order in which they are listed. -/
def all : List Category :=
  [navbar, hero, footer, aboutUs, newsletter, blog, testimonial, gallery, cta, card, plainSection]

/-- The label of a category, which is also the first name of its components. -/
def label : Category → String
  | navbar => "Navbar"
  | hero => "Hero"
  | footer => "Footer"
  | aboutUs => "AboutUs"
  | newsletter => "Newsletter"
  | blog => "Blog"
  | testimonial => "Testimonial"
  | gallery => "Gallery"
  | cta => "CTA"
  | card => "Card"
  | plainSection => "Section"

/-- Only galleries may repeat. -/
def cardinality : Category → Cardinality
  | gallery => .repeatable
  | _ => .singleton

/-- Whether a page holds at most one component of the category. -/
def isSingleton (c : Category) : Bool :=
  c.cardinality == .singleton

/-- Whether two texts differ at most in the case of ASCII letters. -/
def sameIgnoringCase (s t : String) : Bool :=
  s.toList.map Char.toLower == t.toList.map Char.toLower

/-- The category with the label, if there is one. -/
def ofLabel? (s : String) : Option Category :=
  all.find? fun c => sameIgnoringCase c.label (Text.trim s)

/-- A label that no category has, as it was given. -/
structure UnknownLabel where
  label : String
  deriving DecidableEq, Repr

/-- The message about an unknown label. -/
def UnknownLabel.message (e : UnknownLabel) : String :=
  "unknown component category: " ++ e.label

/-- The category with the label. -/
def ofLabel (s : String) : Except UnknownLabel Category :=
  match ofLabel? s with
  | some c => .ok c
  | none => .error ⟨s⟩

end Category
end DesignPages
