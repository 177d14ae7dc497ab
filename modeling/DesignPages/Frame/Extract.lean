import DesignPages.Design.Layer
import DesignPages.Frame.Basic
import DesignPages.Text.Blank

/-!
# Extracting frames

This module finds the frames of a design and the facts about each: the lines of text below it and
its style tokens.
-/

namespace DesignPages

/-- The characters that end a line of text. -/
def isLineBreak (c : Char) : Bool :=
  c == '\n' || c == '\r' || c == '\u2028' || c == '\u2029'

/-- Splits characters at line breaks. -/
def splitLines : List Char → List (List Char)
  | [] => [[]]
  | c :: cs =>
    if isLineBreak c then [] :: splitLines cs
    else match splitLines cs with
      | [] => [[c]]
      | line :: lines => (c :: line) :: lines

/-- The lines of a text without the blanks around them and without empty lines. -/
def textLines (s : String) : List String :=
  (((splitLines s.toList).map Text.trimChars).filter fun line => !line.isEmpty).map String.ofList

/-- The lines of text of a layer. -/
def Layer.lines (l : Layer) : List String :=
  match l.characters? with
  | some s => textLines s
  | none => []

/-- The stroke weight of a layer that has strokes, if it is positive. -/
def Layer.border? (l : Layer) : Option Float :=
  if l.strokes.isEmpty then none
  else l.strokeWeight.filter fun weight => 0 < weight

/-- The style tokens of a layer. -/
def Layer.tokens (l : Layer) : StyleTokens where
  background := l.fills.findSome? Paint.solidColor?
  elevated := l.effects.any fun e => e.kind == .dropShadow
  border := l.border?
  fontSize := (l.textStyle.bind TextStyle.fontSize).map FontSize.ofPixels
  fontWeight := (l.textStyle.bind TextStyle.fontWeight).map FontWeight.ofNumber

namespace Design

/-- The frames of a design with what lies below them, each before the frames below it. -/
def frames (d : Design) : List Design :=
  d.subtrees.filter fun t => t.value.isFrame

/-- The lines of text in a design, from the root down. -/
def texts (d : Design) : List String :=
  d.values.flatMap Layer.lines

/-- The facts about the root of a design. -/
def facts (d : Design) : Frame where
  id := d.value.id
  name := d.value.name
  texts := d.texts
  hasChildFrames := d.hasChildFrames
  box := d.value.box
  style := d.value.tokens

/-- The facts about every frame of a design. -/
def extract (d : Design) : List Frame :=
  d.frames.map facts

end Design
end DesignPages
