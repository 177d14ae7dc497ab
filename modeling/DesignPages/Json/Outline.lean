import DesignPages.Json.Basic

/-!
# Outlines of JSON texts

A text that should be JSON can break off or go wrong anywhere, and what is wrong with it depends on
who looks: a value that is read must be sound in every part, while a value that is skipped may hold
numbers beyond all doubles, unpaired surrogates, and brackets nested to any depth.  An outline keeps
what stands in the text, in order and up to the first place where nobody could go on, so that both
ways of looking can be described on it.

`Outline.skip` checks a value that nobody reads, and `Outline.visit` reads a value of any shape.
-/

namespace DesignPages
namespace Json

/-- How a text can fail to be JSON: it holds something wrong, or it ends too early. -/
inductive Break where
  | malformed
  | truncated
  deriving DecidableEq, Repr, Inhabited

/-- How the items of an array or the members of an object end.  `dangling` is the end of the text
right after a comma. -/
inductive Stop where
  | closed
  | malformed
  | truncated
  | dangling
  deriving DecidableEq, Repr, Inhabited

/-- What stands in the place of a member's key.  A key may hold unpaired surrogates, break off
(seen in two ways, when it is read and when it is skipped), or be no string at all. -/
inductive Key where
  | text (s : String)
  | unpaired
  | broken (read skipped : Break)
  | missing
  deriving DecidableEq, Repr, Inhabited

/-- What stands in the place of a value.  A string is `none` if it holds unpaired surrogates. -/
inductive Outline where
  | null
  | bool (value : Bool)
  | num (literal : Literal)
  | str (text : Option String)
  | arr (items : List Outline) (stop : Stop)
  | obj (members : List (Key × Outline)) (stop : Stop)
  /-- No value begins here. -/
  | nothing (why : Break)
  /-- The word `null` goes wrong. -/
  | brokenNull (why : Break)
  /-- The word of a truth value goes wrong. -/
  | brokenBool (why : Break)
  /-- A number goes wrong; a reader that skips it finds it malformed in any case. -/
  | brokenNumber (why : Break)
  /-- A string goes wrong, for one who reads it and for one who skips it. -/
  | brokenText (read skipped : Break)
  deriving Repr, Inhabited

/-- What a reader that goes on to the end of the brackets finds there. -/
def Stop.check : Stop → Except Break Unit
  | .closed => .ok ()
  | .malformed => .error .malformed
  | .truncated => .error .truncated
  | .dangling => .error .truncated

/-- What a reader that expects the closing bracket right here finds. -/
def Stop.checkNow : Stop → Except Break Unit
  | .dangling => .error .malformed
  | stop => stop.check

/-- The text of a key that is read. -/
def Key.read : Key → Except Break String
  | .text s => .ok s
  | .unpaired => .error .malformed
  | .broken why _ => .error why
  | .missing => .error .malformed

/-- Checks a key that is skipped. -/
def Key.skip : Key → Except Break Unit
  | .text _ => .ok ()
  | .unpaired => .ok ()
  | .broken _ why => .error why
  | .missing => .error .malformed

namespace Outline

mutual

/-- Checks a value that nobody reads. -/
def skip : Outline → Except Break Unit
  | .null => .ok ()
  | .bool _ => .ok ()
  | .num _ => .ok ()
  | .str _ => .ok ()
  | .arr items stop => do
    skipItems items
    stop.check
  | .obj members stop => do
    skipMembers members
    stop.check
  | .nothing why => .error why
  | .brokenNull why => .error why
  | .brokenBool why => .error why
  | .brokenNumber _ => .error .malformed
  | .brokenText _ why => .error why

/-- Checks the items of an array that nobody reads. -/
def skipItems : List Outline → Except Break Unit
  | [] => .ok ()
  | v :: vs => do
    skip v
    skipItems vs

/-- Checks the members of an object that nobody reads. -/
def skipMembers : List (Key × Outline) → Except Break Unit
  | [] => .ok ()
  | (key, v) :: ms => do
    key.skip
    skip v
    skipMembers ms

end

mutual

/-- Reads a value of any shape, with `room` more brackets allowed inside each other. -/
def visit (room : Nat) : Outline → Except Break Json
  | .null => .ok .null
  | .bool b => .ok (.bool b)
  | .num l => if l.number?.isSome then .ok (.num l) else .error .malformed
  | .str (some s) => .ok (.str s)
  | .str none => .error .malformed
  | .arr items stop =>
    if room = 0 then .error .malformed
    else do
      let vs ← visitItems (room - 1) items
      stop.check
      return .arr vs
  | .obj members stop =>
    if room = 0 then .error .malformed
    else do
      let ms ← visitMembers (room - 1) members
      stop.check
      return .obj ms
  | .nothing why => .error why
  | .brokenNull why => .error why
  | .brokenBool why => .error why
  | .brokenNumber why => .error why
  | .brokenText why _ => .error why

/-- Reads the items of an array. -/
def visitItems (room : Nat) : List Outline → Except Break (List Json)
  | [] => .ok []
  | v :: vs => do
    let w ← visit room v
    let ws ← visitItems room vs
    return w :: ws

/-- Reads the members of an object, repeated keys included. -/
def visitMembers (room : Nat) : List (Key × Outline) → Except Break (List (String × Json))
  | [] => .ok []
  | (key, v) :: ms => do
    let k ← key.read
    let w ← visit room v
    let rest ← visitMembers room ms
    return (k, w) :: rest

end

mutual

/-- The outline of a text that holds the value and nothing wrong. -/
def ofJson : Json → Outline
  | .null => .null
  | .bool b => .bool b
  | .num l => .num l
  | .str s => .str (some s)
  | .arr items => .arr (ofItems items) .closed
  | .obj members => .obj (ofMembers members) .closed

/-- The outlines of items. -/
def ofItems : List Json → List Outline
  | [] => []
  | v :: vs => ofJson v :: ofItems vs

/-- The outlines of members. -/
def ofMembers : List (String × Json) → List (Key × Outline)
  | [] => []
  | (k, v) :: ms => (.text k, ofJson v) :: ofMembers ms

end

end Outline
end Json
end DesignPages
