import DesignPages.Json.Arrange
import DesignPages.Json.Fault
import DesignPages.Json.Scan

/-!
# Reading typed values

A `Decoder` reads a value of some type from an outline.  There are three settings.  While the text
is `streamed`, what is wrong is reported in the order of the text, and what no type asks for is only
skipped.  When the `whole` value was taken in first, and its objects arranged, only its shape can be
wrong.  Members that were `stored` for later are read as they stand in the text.

A record is described by its fields.  It may be written as an object with its fields in any order
and unknown members between them, or as an array of its fields in the order of their declaration.
-/

namespace DesignPages
namespace Json

/-- How the outline that is read came about. -/
inductive Manner where
  | streamed
  | whole
  | stored
  deriving DecidableEq, Repr

/-- The circumstances of reading: the manner, and how many brackets may still be opened. -/
structure Setting where
  manner : Manner
  room : Nat
  deriving DecidableEq, Repr

/-- The brackets that may stand inside each other in one text. -/
def Setting.depthLimit : Nat := 127

/-- Reads a value from an outline. -/
abbrev Decoder (α : Type) := Setting → Outline → Except Fault α

/-- Turns a fault of the text into a fault of reading. -/
def orBroken {α : Type} : Except Break α → Except Fault α
  | .ok a => .ok a
  | .error why => .error (.broken why)

/-- The setting inside one more bracket. -/
def Setting.inside (s : Setting) : Except Fault Setting :=
  if s.room = 0 then .error (.broken .malformed) else .ok { s with room := s.room - 1 }

/-- The fault of an outline that is not what was wanted.  A scalar is read before it is refused;
brackets are refused when they open. -/
def Outline.refuse (wanted : Wanted) : Outline → Fault
  | .null => .mismatch (.wrongType .null wanted)
  | .bool b => .mismatch (.wrongType (.bool b) wanted)
  | .num l =>
    match l.number? with
    | some n => .mismatch (.wrongType (.number n) wanted)
    | none => .broken .malformed
  | .str (some s) => .mismatch (.wrongType (.text s) wanted)
  | .str none => .broken .malformed
  | .arr _ _ => .mismatch (.wrongType .sequence wanted)
  | .obj _ _ => .mismatch (.wrongType .map wanted)
  | .nothing why => .broken why
  | .brokenNull why => .broken why
  | .brokenBool why => .broken why
  | .brokenNumber why => .broken why
  | .brokenText why _ => .broken why

namespace Decoder

/-- Reads a text. -/
def string : Decoder String
  | _, .str (some s) => .ok s
  | _, o => .error (o.refuse .string)

/-- Reads a truth value. -/
def boolean : Decoder Bool
  | _, .bool b => .ok b
  | _, o => .error (o.refuse .boolean)

/-- Reads a double. -/
def double : Decoder Float
  | _, .num l =>
    match l.number? with
    | some n => .ok n.toDouble
    | none => .error (.broken .malformed)
  | _, o => .error (o.refuse .double)

/-- Reads a single: the one nearest to the integer or to the double that is written. -/
def single : Decoder Float32
  | _, .num l =>
    match l.number? with
    | some n => .ok n.toSingle
    | none => .error (.broken .malformed)
  | _, o => .error (o.refuse .single)

/-- Reads a value that may be `null`. -/
def nullable {α : Type} (d : Decoder α) : Decoder (Option α)
  | _, .null => .ok none
  | _, .brokenNull why => .error (.broken why)
  | s, o => (d s o).map some

/-- Reads the items of an array. -/
def items {α : Type} (d : Decoder α) (s : Setting) : List Outline → Except Fault (List α)
  | [] => .ok []
  | o :: os => do
    let a ← d s o
    let as ← items d s os
    return a :: as

/-- Reads an array. -/
def list {α : Type} (d : Decoder α) : Decoder (List α)
  | s, .arr os stop => do
    let inside ← s.inside
    let as ← items d inside os
    orBroken stop.check
    return as
  | _, o => .error (o.refuse .sequence)

/-- Reads a value and refuses those that another check turns down. -/
def refine {α β : Type} (d : Decoder α) (check : α → Except String β) : Decoder β :=
  fun s o => do
    let a ← d s o
    match check a with
    | .ok b => .ok b
    | .error reason => .error (.mismatch (.refused reason))

end Decoder

/-- Whether a field may be left out: never, in an object only, or in both forms of a record. -/
inductive Absence where
  | required
  | optional
  | defaulted
  deriving DecidableEq, Repr

/-- A field of a record: its name, whether it may be left out, and how its value is read into the
record. -/
structure Field (σ : Type) where
  name : String
  absence : Absence
  read : Setting → Outline → σ → Except Fault σ

/-- The field whose value is read by a decoder and put into the record by `put`. -/
def Field.of {σ α : Type} (name : String) (absence : Absence) (d : Decoder α) (put : α → σ → σ) :
    Field σ :=
  ⟨name, absence, fun s o r => (d s o).map fun a => put a r⟩

/-- A record type: its name in messages, its fields in the order of declaration, and the record in
which every field that is left out keeps its value. -/
structure Record (σ : Type) where
  name : String
  fields : List (Field σ)
  blank : σ

namespace Record

/-- The field with the name, if the record has one. -/
def field? {σ : Type} (r : Record σ) (name : String) : Option (Field σ) :=
  r.fields.find? fun f => f.name == name

/-- Reads members in the order of the text.  `seen` holds the names of the fields read so far. -/
def readMembers {σ : Type} (r : Record σ) (s : Setting) :
    List (Key × Outline) → List String → σ → Except Fault (List String × σ)
  | [], seen, value => .ok (seen, value)
  | (key, o) :: ms, seen, value => do
    let name ← orBroken key.read
    match r.field? name with
    | none =>
      orBroken o.skip
      readMembers r s ms seen value
    | some f =>
      if seen.contains name then .error (.mismatch (.duplicateField name))
      else
        let value ← f.read s o value
        readMembers r s ms (name :: seen) value

/-- Checks that no field is left out that must not be. -/
def checkPresent {σ : Type} (seen : List String) : List (Field σ) → Except Fault Unit
  | [] => .ok ()
  | f :: fs =>
    if f.absence = .required ∧ !seen.contains f.name then
      .error (.mismatch (.missingField f.name))
    else
      checkPresent seen fs

/-- Checks that the fields behind the end of an array may be left out; `index` counts those before
them. -/
def checkDefaults {σ : Type} (r : Record σ) : Nat → List (Field σ) → Except Fault Unit
  | _, [] => .ok ()
  | index, f :: fs =>
    if f.absence = .defaulted then checkDefaults r (index + 1) fs
    else .error (.mismatch (.shortRecord index r.name r.fields.length))

/-- The fault of an array that goes on behind the last field. -/
def tooLong {σ : Type} (r : Record σ) (manner : Manner) (given : Nat) : Fault :=
  match manner with
  | .streamed => .broken .malformed
  | .whole => .mismatch (.longRecord given)
  | .stored => .mismatch (.longStoredRecord given r.fields.length)

/-- Reads the elements of an array as fields in the order of declaration; `index` counts the fields
read so far. -/
def readElements {σ : Type} (r : Record σ) (s : Setting) (stop : Stop) :
    Nat → List Outline → List (Field σ) → σ → Except Fault σ
  | index, [], f :: fs, value => do
    orBroken stop.check
    checkDefaults r index (f :: fs)
    return value
  | _, [], [], value => do
    orBroken stop.checkNow
    return value
  | index, os@(_ :: _), [], _ => .error (r.tooLong s.manner (index + os.length))
  | index, o :: os, f :: fs, value => do
    let value ← f.read s o value
    readElements r s stop (index + 1) os fs value

/-- Reads a record from the members of an object that are all there. -/
def ofMembers {σ : Type} (r : Record σ) (s : Setting) (ms : List (Key × Outline)) (stop : Stop) :
    Except Fault σ := do
  let (seen, value) ← r.readMembers s ms [] r.blank
  orBroken stop.check
  checkPresent seen r.fields
  return value

/-- Reads a record in either form. -/
def decoder {σ : Type} (r : Record σ) : Decoder σ
  | s, .obj ms stop => do
    let inside ← s.inside
    r.ofMembers inside ms stop
  | s, .arr os stop => do
    let inside ← s.inside
    r.readElements inside stop 0 os r.fields r.blank
  | _, o => .error (o.refuse (.record r.name))

end Record

/-- What a case of a choice carries: nothing, a value, or fields. -/
inductive Payload (α : Type) where
  | unit (value : α)
  | newtype (read : Decoder α)
  | struct (read : Decoder α)

/-- A case of a choice. -/
structure Case (α : Type) where
  name : String
  payload : Payload α

namespace Case

/-- Reads the payload of a case that carries nothing. -/
def unitPayload {α : Type} (value : α) : Decoder α
  | _, .null => .ok value
  | s, .obj [] stop =>
    if s.manner = .stored then .ok value else .error ((Outline.obj [] stop).refuse .unit)
  | _, o => .error (o.refuse .unit)

/-- Reads the payload of a case. -/
def readPayload {α : Type} (c : Case α) (s : Setting) (o : Outline) : Except Fault α :=
  match c.payload with
  | .unit value => unitPayload value s o
  | .newtype read => read s o
  | .struct read => read s o

/-- Reads a case that is given by its name alone. -/
def alone {α : Type} (c : Case α) : Except Fault α :=
  match c.payload with
  | .unit value => .ok value
  | .newtype _ => .error (.mismatch (.wrongType .unitVariant .newtypeVariant))
  | .struct _ => .error (.mismatch (.wrongType .unitVariant .structVariant))

/-- Finds the case with the name. -/
def select {α : Type} (cases : List (Case α)) (name : String) : Except Fault (Case α) :=
  match cases.find? fun c => c.name == name with
  | some c => .ok c
  | none => .error (.mismatch (.unknownVariant name (cases.map Case.name)))

/-- Reads a choice from streamed text: the name of a case, or an object with that one key. -/
def streamed {α : Type} (cases : List (Case α)) : Decoder α
  | _, .str (some name) => do (← select cases name).alone
  | s, .obj ms stop => do
    let inside ← s.inside
    match ms with
    | [] =>
      match stop with
      | .truncated => .error (.broken .truncated)
      | _ => .error (.broken .malformed)
    | (key, o) :: more =>
      let name ← match key with
        | .missing => .error (o.refuse .variant)
        | key => orBroken key.read
      let c ← select cases name
      let a ← c.readPayload inside o
      match more with
      | [] =>
        orBroken stop.checkNow
        return a
      | _ :: _ => .error (.broken .malformed)
  | _, .nothing why => .error (.broken why)
  | _, .brokenText why _ => .error (.broken why)
  | _, _ => .error (.broken .malformed)

/-- Reads a choice from a value that was taken in before. -/
def taken {α : Type} (cases : List (Case α)) : Decoder α
  | _, .str (some name) => do (← select cases name).alone
  | s, .obj [(key, o)] _ => do
    let name ← orBroken key.read
    let c ← select cases name
    c.readPayload s o
  | _, .obj _ _ => .error (.mismatch .notOneKey)
  | _, o => .error (o.refuse .stringOrMap)

/-- Reads a choice. -/
def decoder {α : Type} (cases : List (Case α)) : Decoder α := fun s o =>
  match s.manner with
  | .streamed => streamed cases s o
  | _ => taken cases s o

end Case

/-- Reads a value while the text is streamed. -/
def readStreamed {α : Type} (d : Decoder α) (text : String) : Except Fault α := do
  let (o, rest) := Outline.ofChars text.toList
  let a ← d ⟨.streamed, Setting.depthLimit⟩ o
  orBroken (checkRest rest)
  return a

/-- Takes in a whole text. -/
def readWhole (text : String) : Except Fault Json := do
  let (o, rest) := Outline.ofChars text.toList
  let v ← orBroken (o.visit Setting.depthLimit)
  orBroken (checkRest rest)
  return v.arrange

/-- Reads a value from a whole value that was taken in before. -/
def fromWhole {α : Type} (d : Decoder α) (v : Json) : Except Fault α :=
  d ⟨.whole, Setting.depthLimit⟩ (.ofJson v)

end Json
end DesignPages
