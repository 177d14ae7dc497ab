import DesignPages.Export.Layer

/-!
# From exports to designs

This module carries an exported layer over to a layer of a design.  Hidden paints and effects are
dropped, and the type of the layer decides its kind, except that a layer of an unknown type with a
visible image is an image.
-/

namespace DesignPages
namespace Export

/-- The kind of a paint. -/
def paintKind (type : String) : PaintKind :=
  if type = "SOLID" then .solid
  else if type = "IMAGE" then .image
  else if "GRADIENT".toList.isPrefixOf type.toList then .gradient
  else .other type

/-- A paint of a design, unless the exported one is hidden. -/
def Paint.toPaint? (p : Paint) : Option DesignPages.Paint :=
  if p.visible then some ⟨paintKind p.type, p.color, p.opacity⟩ else none

/-- The kind of an effect. -/
def effectKind (type : String) : EffectKind :=
  if type = "DROP_SHADOW" then .dropShadow
  else if type = "INNER_SHADOW" then .innerShadow
  else if type = "LAYER_BLUR" then .layerBlur
  else if type = "BACKGROUND_BLUR" then .backgroundBlur
  else .other type

/-- An effect of a design, unless the exported one is hidden. -/
def Effect.toEffect? (e : Effect) : Option DesignPages.Effect :=
  if e.visible then some ⟨effectKind e.type, e.radius⟩ else none

/-- The kind of a layer with the given visible fills. -/
def layerKind (type : String) (characters : Option String) (fills : List DesignPages.Paint) :
    LayerKind :=
  if type = "FRAME" then .frame
  else if type = "TEXT" then .text characters
  else if fills.any fun p => p.kind == .image then .image
  else .other type

/-- The layer of a design. -/
def Layer.toLayer (l : Layer) : DesignPages.Layer :=
  let fills := l.fills.filterMap Paint.toPaint?
  { id := l.id
    name := l.name
    kind := layerKind l.type l.characters fills
    box := l.box
    fills := fills
    effects := l.effects.filterMap Effect.toEffect?
    strokes := l.strokes.filterMap Paint.toPaint?
    strokeWeight := l.strokeWeight
    textStyle := l.style }

/-- The design of an exported tree. -/
def Node.toDesign (n : Node) : Design :=
  n.map Layer.toLayer

end Export
end DesignPages
