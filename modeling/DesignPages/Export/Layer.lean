import DesignPages.Design.Layer
import DesignPages.Json.Decode

/-!
# Layers of an export

This module holds the layers that a design tool exports, as far as a compilation looks at them, and
how they are read.
-/

namespace DesignPages
namespace Export

open Json (Decoder Record)

/-- The place and size of a layer. -/
def boxRecord : Record Box where
  name := "struct RawBoundingBox"
  fields :=
    [.of "x" .defaulted Decoder.double fun v b => { b with x := v },
     .of "y" .defaulted Decoder.double fun v b => { b with y := v },
     .of "width" .required Decoder.double fun v b => { b with width := v },
     .of "height" .required Decoder.double fun v b => { b with height := v }]
  blank := ⟨0, 0, 0, 0⟩

/-- The color of a paint. -/
def colorRecord : Record Color where
  name := "struct RawColor"
  fields :=
    [.of "r" .required Decoder.single fun v c => { c with r := v },
     .of "g" .required Decoder.single fun v c => { c with g := v },
     .of "b" .required Decoder.single fun v c => { c with b := v },
     .of "a" .defaulted Decoder.single fun v c => { c with a := v }]
  blank := .black

/-- A paint as it is exported, hidden ones included. -/
structure Paint where
  type : String
  visible : Bool
  opacity : Option Float32
  color : Option Color
  deriving DecidableEq, Repr

/-- The record of a paint.  A paint is visible unless it says otherwise. -/
def Paint.record : Record Paint where
  name := "struct RawPaint"
  fields :=
    [.of "type" .required Decoder.string fun v p => { p with type := v },
     .of "visible" .defaulted Decoder.boolean fun v p => { p with visible := v },
     .of "opacity" .defaulted (Decoder.nullable Decoder.single) fun v p => { p with opacity := v },
     .of "color" .defaulted (Decoder.nullable colorRecord.decoder) fun v p => { p with color := v }]
  blank := ⟨"", true, none, none⟩

/-- An effect as it is exported, hidden ones included. -/
structure Effect where
  type : String
  visible : Bool
  radius : Option Float
  deriving DecidableEq, Repr

/-- The record of an effect.  An effect is visible unless it says otherwise. -/
def Effect.record : Record Effect where
  name := "struct RawEffect"
  fields :=
    [.of "type" .required Decoder.string fun v e => { e with type := v },
     .of "visible" .defaulted Decoder.boolean fun v e => { e with visible := v },
     .of "radius" .defaulted (Decoder.nullable Decoder.double) fun v e => { e with radius := v }]
  blank := ⟨"", true, none⟩

/-- The font metrics of a layer. -/
def textStyleRecord : Record TextStyle where
  name := "struct RawTypeStyle"
  fields :=
    [.of "fontSize" .defaulted (Decoder.nullable Decoder.double) fun v t =>
      { t with fontSize := v },
     .of "fontWeight" .defaulted (Decoder.nullable Decoder.double) fun v t =>
      { t with fontWeight := v }]
  blank := ⟨none, none⟩

/-- A layer as it is exported, without the layers below it. -/
structure Layer where
  id : String
  name : String
  type : String
  characters : Option String
  box : Option Box
  fills : List Paint
  strokes : List Paint
  strokeWeight : Option Float
  effects : List Effect
  style : Option TextStyle
  deriving DecidableEq, Repr

/-- The layer that says nothing. -/
def Layer.blank : Layer :=
  ⟨"", "", "", none, none, [], [], none, [], none⟩

/-- An exported tree of layers. -/
abbrev Node := Tree Layer

namespace Node

/-- The field of a property of the root layer; every property may be left out. -/
def layerField {α : Type} (name : String) (d : Decoder α) (put : α → Layer → Layer) :
    Json.Field Node :=
  .of name .defaulted d fun v t => .node (put v t.value) t.children

/-- The record of a node, given how the nodes below it are read. -/
def record (child : Decoder Node) : Record Node where
  name := "struct RawNode"
  fields :=
    [layerField "id" Decoder.string fun v l => { l with id := v },
     layerField "name" Decoder.string fun v l => { l with name := v },
     layerField "type" Decoder.string fun v l => { l with type := v },
     .of "children" .defaulted (Decoder.list child) fun v t => .node t.value v,
     layerField "characters" (Decoder.nullable Decoder.string) fun v l =>
      { l with characters := v },
     layerField "absoluteBoundingBox" (Decoder.nullable boxRecord.decoder) fun v l =>
      { l with box := v },
     layerField "fills" (Decoder.list Paint.record.decoder) fun v l => { l with fills := v },
     layerField "strokes" (Decoder.list Paint.record.decoder) fun v l => { l with strokes := v },
     layerField "strokeWeight" (Decoder.nullable Decoder.double) fun v l =>
      { l with strokeWeight := v },
     layerField "effects" (Decoder.list Effect.record.decoder) fun v l => { l with effects := v },
     layerField "style" (Decoder.nullable textStyleRecord.decoder) fun v l => { l with style := v }]
  blank := .node .blank []

/-- Reads a node with less than `height` layers above each other. -/
def decoderBelow : Nat → Decoder Node
  | 0 => fun _ _ => .error (.broken .malformed)
  | height + 1 => (record (decoderBelow height)).decoder

/-- Reads a node.  There are never more layers above each other than brackets may be opened. -/
def decoder : Decoder Node := fun s o =>
  decoderBelow (s.room + 1) s o

end Node
end Export
end DesignPages
