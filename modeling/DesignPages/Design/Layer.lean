import DesignPages.Design.Paint
import DesignPages.Design.Tree

/-!
# Layers

This module holds the layers of a design.  A design is a tree of layers.
-/

namespace DesignPages

/-- The kind of a layer, with what only that kind has. -/
inductive LayerKind where
  /-- A container that may become a component. -/
  | frame
  /-- A layer that shows a text. -/
  | text (characters : Option String)
  /-- A layer that shows an image. -/
  | image
  /-- Any other layer, with the label of its kind. -/
  | other (label : String)
  deriving DecidableEq, Repr

/-- A layer without the layers below it. -/
structure Layer where
  id : String
  name : String
  kind : LayerKind
  box : Option Box
  fills : List Paint
  effects : List Effect
  strokes : List Paint
  strokeWeight : Option Float
  textStyle : Option TextStyle
  deriving DecidableEq, Repr

namespace Layer

/-- A layer with nothing but a kind. -/
def plain (id name : String) (kind : LayerKind) : Layer :=
  ⟨id, name, kind, none, [], [], [], none, none⟩

/-- A frame. -/
def frame (id name : String) : Layer :=
  plain id name .frame

/-- A text that is named after its characters. -/
def text (id characters : String) : Layer :=
  plain id characters (.text (some characters))

/-- Whether the layer is a frame. -/
def isFrame (l : Layer) : Bool :=
  l.kind == .frame

/-- The characters of a text. -/
def characters? (l : Layer) : Option String :=
  match l.kind with
  | .text characters => characters
  | _ => none

end Layer

/-- A design: a tree of layers. -/
abbrev Design := Tree Layer

/-- Whether a frame lies right below the root. -/
def Design.hasChildFrames (d : Design) : Bool :=
  d.children.any fun c => c.value.isFrame

end DesignPages
