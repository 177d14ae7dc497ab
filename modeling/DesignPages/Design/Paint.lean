import DesignPages.Style.Color

/-!
# What layers are drawn with

This module holds paints, effects, font metrics and the boxes that layers fill.
-/

namespace DesignPages

/-- The place and size of a layer. -/
structure Box where
  x : Float
  y : Float
  width : Float
  height : Float
  deriving DecidableEq, Repr

namespace Box

/-- A box of the given size at the origin. -/
def ofSize (width height : Float) : Box := ⟨0, 0, width, height⟩

/-- The area of a box. -/
def area (b : Box) : Float :=
  b.width * b.height

end Box

/-- The kind of a paint; an unknown kind keeps its label. -/
inductive PaintKind where
  | solid
  | gradient
  | image
  | other (label : String)
  deriving DecidableEq, Repr

/-- One fill or stroke. -/
structure Paint where
  kind : PaintKind
  color : Option Color
  opacity : Option Float32
  deriving DecidableEq, Repr

namespace Paint

/-- A solid paint. -/
def solid (c : Color) : Paint := ⟨.solid, some c, none⟩

/-- A paint with an image. -/
def image : Paint := ⟨.image, none, none⟩

/-- The color of a solid paint with the opacity of the paint applied to it. -/
def solidColor? (p : Paint) : Option Color :=
  match p.kind with
  | .solid => p.color.map fun c => c.withOpacity (p.opacity.getD 1)
  | _ => none

end Paint

/-- The kind of an effect; an unknown kind keeps its label. -/
inductive EffectKind where
  | dropShadow
  | innerShadow
  | layerBlur
  | backgroundBlur
  | other (label : String)
  deriving DecidableEq, Repr

/-- An effect on a layer. -/
structure Effect where
  kind : EffectKind
  radius : Option Float
  deriving DecidableEq, Repr

/-- A drop shadow. -/
def Effect.dropShadow (radius : Float) : Effect := ⟨.dropShadow, some radius⟩

/-- The font metrics of a layer. -/
structure TextStyle where
  fontSize : Option Float
  fontWeight : Option Float
  deriving DecidableEq, Repr

end DesignPages
