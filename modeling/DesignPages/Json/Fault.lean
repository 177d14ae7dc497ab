import DesignPages.Json.Outline
import DesignPages.Text.Quoted

/-!
# Faults of reading

This module holds what can be wrong with a text from which a value of some type is read: the text
is no JSON, or a value in it does not fit the type.  The second kind has a message.  No fault says where
in the text it was found.
-/

namespace DesignPages
namespace Json

/-- What a reader found. -/
inductive Found where
  | null
  | bool (value : Bool)
  | number (value : Number)
  | text (s : String)
  | sequence
  | map
  | unitVariant
  deriving DecidableEq, Repr

/-- What a reader wanted. -/
inductive Wanted where
  | string
  | boolean
  | double
  | single
  | sequence
  | record (name : String)
  | unit
  | variant
  | stringOrMap
  | newtypeVariant
  | structVariant
  deriving DecidableEq, Repr

/-- What a value in a JSON text has wrong for the type that is read. -/
inductive Mismatch where
  | wrongType (found : Found) (wanted : Wanted)
  | missingField (name : String)
  | duplicateField (name : String)
  | unknownVariant (name : String) (known : List String)
  /-- An array in place of a record ends before an element that has no default. -/
  | shortRecord (given : Nat) (record : String) (size : Nat)
  /-- An array in place of a record goes on behind the last element. -/
  | longRecord (given : Nat)
  /-- The same for a record that is read from stored members. -/
  | longStoredRecord (given size : Nat)
  | notOneKey
  /-- The type itself refuses the value, for the reason given. -/
  | refused (reason : String)
  deriving DecidableEq, Repr

/-- What can be wrong with a text. -/
inductive Fault where
  /-- The text is no JSON.  Such texts are told apart as malformed and truncated ones only: there is no
  message about what the syntax wants, and no line or column. -/
  | broken (why : Break)
  /-- A value does not fit the type.  Its message has no line or column behind it. -/
  | mismatch (what : Mismatch)
  deriving DecidableEq, Repr

/-- The text of a number in a message. -/
def Number.message : Number → String
  | .integer n => "integer `" ++ String.ofList (Literal.ofInt n).text ++ "`"
  | .decimal x =>
    "floating point `" ++ ((Literal.ofDouble? x).elim "" fun l => String.ofList l.text) ++ "`"

/-- The name of what was found. -/
def Found.message : Found → String
  | .null => "null"
  | .bool true => "boolean `true`"
  | .bool false => "boolean `false`"
  | .number n => n.message
  | .text s => "string " ++ Text.quoted s
  | .sequence => "sequence"
  | .map => "map"
  | .unitVariant => "unit variant"

/-- The name of what was wanted. -/
def Wanted.message : Wanted → String
  | .string => "a string"
  | .boolean => "a boolean"
  | .double => "f64"
  | .single => "f32"
  | .sequence => "a sequence"
  | .record name => name
  | .unit => "unit"
  | .variant => "variant identifier"
  | .stringOrMap => "string or map"
  | .newtypeVariant => "newtype variant"
  | .structVariant => "struct variant"

/-- A number of elements. -/
def elements (n : Nat) : String :=
  if n = 1 then "1 element" else toString n ++ " elements"

/-- Names between backticks with commas. -/
def nameList (names : List String) : String :=
  ", ".intercalate (names.map fun n => "`" ++ n ++ "`")

/-- The message of a mismatch. -/
def Mismatch.message : Mismatch → String
  | .wrongType found wanted =>
    "invalid type: " ++ found.message ++ ", expected " ++ wanted.message
  | .missingField name => "missing field `" ++ name ++ "`"
  | .duplicateField name => "duplicate field `" ++ name ++ "`"
  | .unknownVariant name known =>
    "unknown variant `" ++ name ++ "`, expected one of " ++ nameList known
  | .shortRecord given record size =>
    "invalid length " ++ toString given ++ ", expected " ++ record ++ " with " ++ elements size
  | .longRecord given =>
    "invalid length " ++ toString given ++ ", expected fewer elements in array"
  | .longStoredRecord given size =>
    "invalid length " ++ toString given ++ ", expected " ++ elements size ++ " in sequence"
  | .notOneKey => "invalid value: map, expected map with a single key"
  | .refused reason => reason

end Json
end DesignPages
