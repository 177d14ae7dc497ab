import DesignPages.Json.Basic

/-!
# Arranged objects

A reader that takes in a whole value before it looks at any part of it knows the members of an
object in the order of their keys, and of members with one key only the last.  This module brings a
value into that form.
-/

namespace DesignPages
namespace Json

/-- The value of the member with the key, if there is one. -/
def member? (key : String) : List (String × Json) → Option Json
  | [] => none
  | (k, v) :: ms => if k = key then some v else member? key ms

/-- Puts a member at its place among members in the order of their keys, in place of a member with
the same key. -/
def insertMember (k : String) (v : Json) : List (String × Json) → List (String × Json)
  | [] => [(k, v)]
  | (j, w) :: ms =>
    if k = j then (k, v) :: ms
    else if k < j then (k, v) :: (j, w) :: ms
    else (j, w) :: insertMember k v ms

mutual

/-- The value with the members of every object arranged. -/
def arrange : Json → Json
  | .arr items => .arr (arrangeItems items)
  | .obj members => .obj (arrangeMembers members [])
  | v => v

/-- Arranges every item. -/
def arrangeItems : List Json → List Json
  | [] => []
  | v :: vs => arrange v :: arrangeItems vs

/-- Adds members one after the other to arranged ones. -/
def arrangeMembers : List (String × Json) → List (String × Json) → List (String × Json)
  | [], done => done
  | (k, v) :: ms, done => arrangeMembers ms (insertMember k (arrange v) done)

end

end Json
end DesignPages
