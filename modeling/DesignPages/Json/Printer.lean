import DesignPages.Json.Basic
import DesignPages.Json.StringLiteral

/-!
# Printing JSON

This module prints a value in two forms: on one line without any space, and over several lines with
two spaces of indentation a level.  The forms differ only in what stands between the parts.
-/

namespace DesignPages
namespace Json

/-- What sets the parts of a text apart: what stands before an item, a member or a closing bracket,
given the number of brackets around it, and what stands behind a colon. -/
structure Layout where
  gap : Nat → List Char
  afterColon : List Char

/-- Everything on one line. -/
def Layout.compact : Layout where
  gap _ := []
  afterColon := []

/-- Every item and every member on a line of its own. -/
def Layout.pretty : Layout where
  gap level := '\n' :: List.replicate (2 * level) ' '
  afterColon := [' ']

mutual

/-- The characters of a value inside `level` brackets. -/
def chars (layout : Layout) (level : Nat) : Json → List Char
  | .null => "null".toList
  | .bool true => "true".toList
  | .bool false => "false".toList
  | .num l => l.text
  | .str s => stringLiteralChars s.toList
  | .arr [] => ['[', ']']
  | .arr (v :: vs) =>
    '[' :: layout.gap (level + 1) ++ chars layout (level + 1) v ++
      moreItemsChars layout (level + 1) vs ++ layout.gap level ++ [']']
  | .obj [] => ['\x7b', '\x7d']
  | .obj ((k, v) :: ms) =>
    '\x7b' :: layout.gap (level + 1) ++ stringLiteralChars k.toList ++ ':' :: layout.afterColon ++
      chars layout (level + 1) v ++
      moreMembersChars layout (level + 1) ms ++ layout.gap level ++ ['\x7d']

/-- Items behind another one, each with a comma in front. -/
def moreItemsChars (layout : Layout) (level : Nat) : List Json → List Char
  | [] => []
  | v :: vs => ',' :: layout.gap level ++ chars layout level v ++ moreItemsChars layout level vs

/-- Members behind another one, each with a comma in front. -/
def moreMembersChars (layout : Layout) (level : Nat) : List (String × Json) → List Char
  | [] => []
  | (k, v) :: ms =>
    ',' :: layout.gap level ++ stringLiteralChars k.toList ++ ':' :: layout.afterColon ++
      chars layout level v ++ moreMembersChars layout level ms

end

/-- A value on one line. -/
def compact (v : Json) : String :=
  String.ofList (chars .compact 0 v)

/-- A value over several lines. -/
def pretty (v : Json) : String :=
  String.ofList (chars .pretty 0 v)

end Json
end DesignPages
