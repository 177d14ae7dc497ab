import DesignPages.Export.Convert

/-!
# Exported files

This module reads the export of a design tool.  It is either an object with the design under
`document`, or the root node itself, and an export may be empty.
-/

namespace DesignPages
namespace Export

open Json (Decoder Fault Record)

/-- Why a JSON text is no export. -/
inductive Refusal where
  | notAnObject (kind : String)
  | neitherForm
  deriving DecidableEq, Repr

/-- Why an export cannot be read. -/
inductive ReadError where
  | json (fault : Fault)
  | invalid (why : Refusal)
  deriving DecidableEq, Repr

/-- The message about a text that is no export. -/
def Refusal.message : Refusal → String
  | .notAnObject kind =>
    "Invalid design data: expected a JSON object at the top level, found " ++ kind
  | .neitherForm =>
    "Invalid design data: object has neither a `document` nor a node `type`"

/-- What an export holds: the name of the file and the design, each if there is one. -/
structure File where
  name : Option String
  document : Option Design
  deriving Repr

/-- The record of a file. -/
def fileRecord : Record (Option String × Option Node) where
  name := "struct RawFile"
  fields :=
    [.of "name" .defaulted (Decoder.nullable Decoder.string) fun v f => (v, f.2),
     .of "document" .defaulted (Decoder.nullable Node.decoder) fun v f => (f.1, v)]
  blank := (none, none)

/-- The kind of a JSON value in messages. -/
def kindOf : Json → String
  | .null => "null"
  | .bool _ => "a boolean"
  | .num _ => "a number"
  | .str _ => "a string"
  | .arr _ => "an array"
  | .obj _ => "an object"

/-- Turns a fault into an error of reading. -/
def orJson {α : Type} : Except Fault α → Except ReadError α
  | .ok a => .ok a
  | .error fault => .error (.json fault)

/-- Reads a node from a value. -/
def Node.ofJson (v : Json) : Except Fault Design :=
  (Json.fromWhole Node.decoder v).map Node.toDesign

/-- Reads a node from a text. -/
def Node.read (text : String) : Except Fault Design := do
  Node.ofJson (← Json.readWhole text)

/-- Reads a file from a value. -/
def File.ofJson (v : Json) : Except ReadError File :=
  match v with
  | .null => .ok ⟨none, none⟩
  | .obj members =>
    if (Json.member? "document" members).isSome then do
      let (name, document) ← orJson (Json.fromWhole fileRecord.decoder v)
      return ⟨name, document.map Node.toDesign⟩
    else if (Json.member? "type" members).isSome then do
      let d ← orJson (Node.ofJson v)
      return ⟨none, some d⟩
    else
      .error (.invalid .neitherForm)
  | v => .error (.invalid (.notAnObject (kindOf v)))

/-- Reads a file from a text. -/
def File.read (text : String) : Except ReadError File := do
  File.ofJson (← orJson (Json.readWhole text))

end Export
end DesignPages
