/-!
# Sizes and weights of fonts

This module holds the buckets that font sizes and weights fall into.  A bucket ends with its upper
bound, and the last one has none, so that what cannot be compared falls into it.
-/

namespace DesignPages

/-- The bucket of a font size. -/
inductive FontSize where
  | xs
  | sm
  | base
  | lg
  | xl
  | xl2
  | xl3
  | xl4
  | xl5
  deriving DecidableEq, Repr

namespace FontSize

/-- Every bucket, from small to large. -/
def all : List FontSize := [xs, sm, base, lg, xl, xl2, xl3, xl4, xl5]

/-- The name of a bucket. -/
def label : FontSize → String
  | xs => "xs"
  | sm => "sm"
  | base => "base"
  | lg => "lg"
  | xl => "xl"
  | xl2 => "2xl"
  | xl3 => "3xl"
  | xl4 => "4xl"
  | xl5 => "5xl"

/-- The upper bounds in pixels of every bucket but the last. -/
def bounds : List (Float × FontSize) :=
  [(12, xs), (14, sm), (16, base), (18, lg), (20, xl), (24, xl2), (30, xl3), (48, xl4)]

/-- The bucket of a size in pixels. -/
def ofPixels (px : Float) : FontSize :=
  ((bounds.find? fun b => px ≤ b.1).map Prod.snd).getD xl5

/-- The class of a bucket. -/
def className (s : FontSize) : String :=
  "text-" ++ s.label

end FontSize

/-- The bucket of a font weight. -/
inductive FontWeight where
  | light
  | medium
  | bold
  | extraBold
  deriving DecidableEq, Repr

namespace FontWeight

/-- Every bucket, from light to bold. -/
def all : List FontWeight := [light, medium, bold, extraBold]

/-- The name of a bucket. -/
def label : FontWeight → String
  | light => "light"
  | medium => "medium"
  | bold => "bold"
  | extraBold => "extra-bold"

/-- The upper bounds of every bucket but the last. -/
def bounds : List (Float × FontWeight) :=
  [(300, light), (500, medium), (700, bold)]

/-- The bucket of a numeric weight. -/
def ofNumber (weight : Float) : FontWeight :=
  ((bounds.find? fun b => weight ≤ b.1).map Prod.snd).getD extraBold

/-- The class of a bucket. -/
def className : FontWeight → String
  | light => "font-light"
  | medium => "font-medium"
  | bold => "font-bold"
  | extraBold => "font-extrabold"

end FontWeight
end DesignPages
