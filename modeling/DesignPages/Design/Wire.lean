import DesignPages.Design.Layer
import DesignPages.Style.Wire

/-!
# Designs as JSON

This module writes a design as JSON and reads it back.
-/

namespace DesignPages

open Json (Case Decoder Record)

/-- A box as JSON. -/
def Box.toJson (b : Box) : Json :=
  .obj
    [("x", .ofDouble b.x), ("y", .ofDouble b.y), ("width", .ofDouble b.width),
     ("height", .ofDouble b.height)]

/-- The record of a box.  A box without a place lies at the origin. -/
def Box.record : Record Box where
  name := "struct BoundingBox"
  fields :=
    [.of "x" .defaulted Decoder.double fun v b => { b with x := v },
     .of "y" .defaulted Decoder.double fun v b => { b with y := v },
     .of "width" .required Decoder.double fun v b => { b with width := v },
     .of "height" .required Decoder.double fun v b => { b with height := v }]
  blank := ⟨0, 0, 0, 0⟩

/-- The case that carries the label of an unknown kind. -/
def otherCase {α : Type} (make : String → α) : Case α :=
  ⟨"Other", .newtype fun s o => (Decoder.string s o).map make⟩

namespace PaintKind

/-- The kind of a paint as JSON. -/
def toJson : PaintKind → Json
  | solid => .str "Solid"
  | gradient => .str "Gradient"
  | image => .str "Image"
  | other label => .obj [("Other", .str label)]

/-- The choice of the kind of a paint. -/
def cases : List (Case PaintKind) :=
  [⟨"Solid", .unit solid⟩, ⟨"Gradient", .unit gradient⟩, ⟨"Image", .unit image⟩, otherCase other]

end PaintKind

/-- A paint as JSON. -/
def Paint.toJson (p : Paint) : Json :=
  .obj
    [("kind", p.kind.toJson), ("color", .ofOption Color.toJson p.color),
     ("opacity", .ofOption .ofSingle p.opacity)]

/-- The record of a paint. -/
def Paint.record : Record Paint where
  name := "struct Paint"
  fields :=
    [.of "kind" .required (Case.decoder PaintKind.cases) fun v p => { p with kind := v },
     .of "color" .optional (Decoder.nullable Color.record.decoder) fun v p => { p with color := v },
     .of "opacity" .optional (Decoder.nullable Decoder.single) fun v p => { p with opacity := v }]
  blank := .image

namespace EffectKind

/-- The kind of an effect as JSON. -/
def toJson : EffectKind → Json
  | dropShadow => .str "DropShadow"
  | innerShadow => .str "InnerShadow"
  | layerBlur => .str "LayerBlur"
  | backgroundBlur => .str "BackgroundBlur"
  | other label => .obj [("Other", .str label)]

/-- The choice of the kind of an effect. -/
def cases : List (Case EffectKind) :=
  [⟨"DropShadow", .unit dropShadow⟩, ⟨"InnerShadow", .unit innerShadow⟩,
   ⟨"LayerBlur", .unit layerBlur⟩, ⟨"BackgroundBlur", .unit backgroundBlur⟩, otherCase other]

end EffectKind

/-- An effect as JSON. -/
def Effect.toJson (e : Effect) : Json :=
  .obj [("kind", e.kind.toJson), ("radius", .ofOption .ofDouble e.radius)]

/-- The record of an effect. -/
def Effect.record : Record Effect where
  name := "struct Effect"
  fields :=
    [.of "kind" .required (Case.decoder EffectKind.cases) fun v e => { e with kind := v },
     .of "radius" .optional (Decoder.nullable Decoder.double) fun v e => { e with radius := v }]
  blank := ⟨.dropShadow, none⟩

/-- Font metrics as JSON. -/
def TextStyle.toJson (t : TextStyle) : Json :=
  .obj
    [("font_size", .ofOption .ofDouble t.fontSize),
     ("font_weight", .ofOption .ofDouble t.fontWeight)]

/-- The record of font metrics. -/
def TextStyle.record : Record TextStyle where
  name := "struct TextStyle"
  fields :=
    [.of "font_size" .optional (Decoder.nullable Decoder.double) fun v t =>
      { t with fontSize := v },
     .of "font_weight" .optional (Decoder.nullable Decoder.double) fun v t =>
      { t with fontWeight := v }]
  blank := ⟨none, none⟩

namespace LayerKind

/-- The kind of a layer as JSON. -/
def toJson : LayerKind → Json
  | frame => .str "Frame"
  | text characters => .obj [("Text", .obj [("characters", .ofOption .str characters)])]
  | image => .str "Image"
  | other label => .obj [("Other", .str label)]

/-- The record of what a text carries. -/
def charactersRecord : Record (Option String) where
  name := "struct variant NodeKind::Text"
  fields := [.of "characters" .optional (Decoder.nullable Decoder.string) fun v _ => v]
  blank := none

/-- The choice of the kind of a layer. -/
def cases : List (Case LayerKind) :=
  [⟨"Frame", .unit frame⟩,
   ⟨"Text", .struct fun s o => (charactersRecord.decoder s o).map text⟩,
   ⟨"Image", .unit image⟩,
   otherCase other]

end LayerKind

namespace Design

/-- The members of a layer as JSON, with what lies below it. -/
def layerJson (l : Layer) (children : List Json) : Json :=
  .obj
    [("id", .str l.id),
     ("name", .str l.name),
     ("kind", l.kind.toJson),
     ("children", .arr children),
     ("bounding_box", .ofOption Box.toJson l.box),
     ("fills", .ofList Paint.toJson l.fills),
     ("effects", .ofList Effect.toJson l.effects),
     ("strokes", .ofList Paint.toJson l.strokes),
     ("stroke_weight", .ofOption .ofDouble l.strokeWeight),
     ("text_style", .ofOption TextStyle.toJson l.textStyle)]

mutual

/-- A design as JSON. -/
def toJson : Tree Layer → Json
  | .node l ts => layerJson l (toJsons ts)

/-- Designs as JSON. -/
def toJsons : List (Tree Layer) → List Json
  | [] => []
  | t :: ts => toJson t :: toJsons ts

end

/-- The field of a property of the root layer. -/
def layerField {α : Type} (name : String) (absence : Json.Absence) (d : Decoder α)
    (put : α → Layer → Layer) : Json.Field Design :=
  .of name absence d fun v t => .node (put v t.value) t.children

/-- The record of a design, given how the designs below the root are read. -/
def record (child : Decoder Design) : Record Design where
  name := "struct DesignNode"
  fields :=
    [layerField "id" .required Decoder.string fun v l => { l with id := v },
     layerField "name" .required Decoder.string fun v l => { l with name := v },
     layerField "kind" .required (Case.decoder LayerKind.cases) fun v l => { l with kind := v },
     .of "children" .required (Decoder.list child) fun v t => .node t.value v,
     layerField "bounding_box" .optional (Decoder.nullable Box.record.decoder) fun v l =>
      { l with box := v },
     layerField "fills" .required (Decoder.list Paint.record.decoder) fun v l =>
      { l with fills := v },
     layerField "effects" .required (Decoder.list Effect.record.decoder) fun v l =>
      { l with effects := v },
     layerField "strokes" .required (Decoder.list Paint.record.decoder) fun v l =>
      { l with strokes := v },
     layerField "stroke_weight" .optional (Decoder.nullable Decoder.double) fun v l =>
      { l with strokeWeight := v },
     layerField "text_style" .optional (Decoder.nullable TextStyle.record.decoder) fun v l =>
      { l with textStyle := v }]
  blank := .node (.frame "" "") []

/-- Reads a design with less than `height` layers above each other. -/
def decoderBelow : Nat → Decoder Design
  | 0 => fun _ _ => .error (.broken .malformed)
  | height + 1 => (record (decoderBelow height)).decoder

/-- Reads a design.  There are never more layers above each other than brackets may be opened. -/
def decoder : Decoder Design := fun s o =>
  decoderBelow (s.room + 1) s o

/-- Reads a design from a text. -/
def read (text : String) : Except Json.Fault Design :=
  Json.readStreamed decoder text

end Design
end DesignPages
