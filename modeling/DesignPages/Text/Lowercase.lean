import DesignPages.Text.LowercaseTable

/-!
# Lower case

This module holds the full lower-case mapping of Unicode.  Every character is mapped on its own but
for the capital sigma, whose form depends on its neighbours: at the end of a word it is `ς`, and
anywhere else `σ`.
-/

namespace DesignPages
namespace Text

/-- Whether a character lies in one of the ranges. -/
def inRanges (ranges : List (Nat × Nat)) (c : Char) : Bool :=
  ranges.any fun r => r.1 ≤ c.toNat && c.toNat ≤ r.2

/-- The character that a run maps `c` to, if the run holds `c`. -/
def lowercaseBy (c : Char) : Nat × Nat × Nat × Int → Option Char
  | (first, last, step, distance) =>
    if first ≤ c.toNat ∧ c.toNat ≤ last ∧ (c.toNat - first) % step = 0 then
      some (Char.ofNat (c.toNat + distance).toNat)
    else
      none

/-- The lower-case form of a character outside any context.  Only `İ` has one of two characters. -/
def lowercaseChar (c : Char) : List Char :=
  if c = 'İ' then ['i', '\u0307']
  else [(lowercaseRuns.findSome? (lowercaseBy c)).getD c]

/-- Whether the first character that context does not pass over is a cased letter. -/
def meetsCased (cs : List Char) : Bool :=
  match cs.dropWhile (inRanges caseIgnorableRanges) with
  | [] => false
  | c :: _ => inRanges casedRanges c

/-- Lower case of `cs`, where `before` holds what precedes it, nearest first. -/
def lowercaseAfter (before : List Char) : List Char → List Char
  | [] => []
  | c :: cs =>
    (if c = 'Σ' then
        if meetsCased before && !meetsCased cs then ['ς'] else ['σ']
      else
        lowercaseChar c) ++ lowercaseAfter (c :: before) cs

/-- The lower-case form of a list of characters. -/
def lowercaseChars (cs : List Char) : List Char :=
  lowercaseAfter [] cs

/-- The lower-case form of a text. -/
def lowercase (s : String) : String :=
  String.ofList (lowercaseChars s.toList)

end Text
end DesignPages
