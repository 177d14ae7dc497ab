import DesignPages.Design.Wire
import DesignPages.Frame.Basic

/-!
# Analyzed frames as JSON

This module writes analyzed frames as JSON and reads them back.  The facts about a frame and its
category stand side by side in one object.  When such an object is read, the category and the mark
are looked at while it is parsed; everything else is stored, and the facts are read from what was
stored once the object has ended.  A category is read as a label first, since a text may hold labels
that no category has.
-/

namespace DesignPages

open Json (Decoder Fault Key Outline Record Setting)

/-- The members that hold the facts about a frame. -/
def Frame.members (f : Frame) : List (String × Json) :=
  [("id", .str f.id),
   ("name", .str f.name),
   ("texts", .ofTexts f.texts),
   ("hasChildFrames", .bool f.hasChildFrames),
   ("boundingBox", .ofOption Box.toJson f.box),
   ("style", f.style.toJson)]

/-- The record of the facts about a frame. -/
def Frame.record : Record Frame where
  name := "struct ExtractedFrame"
  fields :=
    [.of "id" .required Decoder.string fun v f => { f with id := v },
     .of "name" .required Decoder.string fun v f => { f with name := v },
     .of "texts" .defaulted (Decoder.list Decoder.string) fun v f => { f with texts := v },
     .of "hasChildFrames" .defaulted Decoder.boolean fun v f => { f with hasChildFrames := v },
     .of "boundingBox" .defaulted (Decoder.nullable Box.record.decoder) fun v f =>
      { f with box := v },
     .of "style" .defaulted StyleTokens.record.decoder fun v f => { f with style := v }]
  blank := ⟨"", "", [], false, none, .none⟩

/-- An analyzed frame as JSON. -/
def AnalyzedFrame.toJson (a : AnalyzedFrame) : Json :=
  .obj (a.frame.members ++ [("type", .str a.category.label), ("shouldSkip", .bool a.shouldSkip)])

/-- Analyzed frames as JSON. -/
def AnalyzedFrame.listToJson (as : List AnalyzedFrame) : Json :=
  .ofList AnalyzedFrame.toJson as

/-- A frame whose category is still a label. -/
structure LabeledFrame where
  frame : Frame
  label : String
  shouldSkip : Bool
  deriving DecidableEq, Repr

/-- A label that no category has, with the id of the frame that bears it. -/
structure UnknownCategory where
  id : String
  label : String
  deriving DecidableEq, Repr

/-- The message about the unknown label of a frame. -/
def UnknownCategory.message (e : UnknownCategory) : String :=
  "Unknown component category '" ++ e.label ++ "' for frame " ++ e.id

namespace LabeledFrame

/-- What is known in the middle of the object of a frame; the stored members stand in reverse. -/
structure Progress where
  label : Option String
  shouldSkip : Option Bool
  stored : List (String × Json)

/-- Reads the members of the object of a frame in the order of the text. -/
def readMembers (s : Setting) : List (Key × Outline) → Progress → Except Fault Progress
  | [], p => .ok p
  | (key, o) :: ms, p => do
    let name ← Json.orBroken key.read
    if name = "type" then
      if p.label.isSome then .error (.mismatch (.duplicateField name))
      else
        let label ← Decoder.string s o
        readMembers s ms { p with label := some label }
    else if name = "shouldSkip" then
      if p.shouldSkip.isSome then .error (.mismatch (.duplicateField name))
      else
        let mark ← Decoder.boolean s o
        readMembers s ms { p with shouldSkip := some mark }
    else
      let v ← Json.orBroken (o.visit s.room)
      readMembers s ms { p with stored := (name, v) :: p.stored }

/-- Reads the facts about a frame from the stored members. -/
def readFacts (stored : List (String × Json)) : Except Fault Frame :=
  Frame.record.ofMembers ⟨.stored, Setting.depthLimit⟩ (Outline.ofMembers stored) .closed

/-- Reads a frame with a label. -/
def decoder : Decoder LabeledFrame
  | s, .obj ms stop => do
    let inside ← s.inside
    let p ← readMembers inside ms ⟨none, none, []⟩
    Json.orBroken stop.check
    match p.label with
    | none => .error (.mismatch (.missingField "type"))
    | some label =>
      let frame ← readFacts p.stored.reverse
      return ⟨frame, label, p.shouldSkip.getD false⟩
  | _, o => .error (o.refuse (.record "struct RawAnalyzedFrame"))

/-- Gives the frame the category that its label names. -/
def categorize (l : LabeledFrame) : Except UnknownCategory AnalyzedFrame :=
  match Category.ofLabel? l.label with
  | some c => .ok ⟨l.frame, c, l.shouldSkip⟩
  | none => .error ⟨l.frame.id, l.label⟩

/-- Reads labeled frames from a text. -/
def readList (text : String) : Except Fault (List LabeledFrame) :=
  Json.readStreamed (Decoder.list decoder) text

end LabeledFrame

namespace AnalyzedFrame

/-- Reads an analyzed frame. -/
def decoder : Decoder AnalyzedFrame :=
  LabeledFrame.decoder.refine fun l => l.categorize.mapError UnknownCategory.message

/-- Reads analyzed frames from a text. -/
def readList (text : String) : Except Fault (List AnalyzedFrame) :=
  Json.readStreamed (Decoder.list decoder) text

end AnalyzedFrame

/-- Reads a category. -/
def Category.decoder : Decoder Category :=
  Decoder.string.refine fun s => (Category.ofLabel s).mapError Category.UnknownLabel.message

/-- Reads a category from a text. -/
def Category.read (text : String) : Except Fault Category :=
  Json.readStreamed Category.decoder text

end DesignPages
