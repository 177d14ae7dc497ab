import DesignPages.Json.Outline
import DesignPages.Text.Hex

/-!
# Scanning JSON texts

This module scans a text into its outline.  Every function takes the rest of the text and gives what
it found together with what is left; `none` is left where the text cannot be scanned any further.
The nested functions carry a bound on their steps, four times the length of the text, which they
never use up: of three steps inside each other at least one takes a character away.
-/

namespace DesignPages
namespace Json
namespace Scan

/-- The white space between the parts of a text. -/
def isSpace (c : Char) : Bool :=
  c == ' ' || c == '\t' || c == '\n' || c == '\r'

/-- Leaves out white space. -/
def skipSpace (cs : List Char) : List Char :=
  cs.dropWhile isSpace

/-- Scans the given characters. -/
def word : List Char → List Char → Except Break (List Char)
  | [], cs => .ok cs
  | _ :: _, [] => .error .truncated
  | e :: es, c :: cs => if c = e then word es cs else .error .malformed

/-- What is wrong where a digit is missing. -/
def digitMissing : List Char → Break
  | [] => .truncated
  | _ :: _ => .malformed

/-- Scans at least one digit. -/
def digits (cs : List Char) : Except Break (List Char × List Char) :=
  match cs.takeWhile Char.isDigit with
  | [] => .error (digitMissing cs)
  | d :: ds => .ok (d :: ds, cs.dropWhile Char.isDigit)

/-- Scans the digits before the point, which start with a zero only if they are one zero. -/
def wholePart (cs : List Char) : Except Break (List Char × List Char) := do
  let (ds, rest) ← digits cs
  if ds.head? = some '0' ∧ ds ≠ ['0'] then .error .malformed else .ok (ds, rest)

/-- Scans the point and the digits after it, if there is a point. -/
def fractionPart : List Char → Except Break (List Char × List Char)
  | '.' :: cs => digits cs
  | cs => .ok ([], cs)

/-- Scans an exponent, if there is one. -/
def exponentPart : List Char → Except Break (Option (Bool × List Char) × List Char)
  | [] => .ok (none, [])
  | c :: cs =>
    if c = 'e' ∨ c = 'E' then
      match cs with
      | '-' :: ds => (digits ds).map fun (ds, rest) => (some (true, ds), rest)
      | '+' :: ds => (digits ds).map fun (ds, rest) => (some (false, ds), rest)
      | ds => (digits ds).map fun (ds, rest) => (some (false, ds), rest)
    else
      .ok (none, c :: cs)

/-- Scans the parts of a number after its sign. -/
def unsigned (negative : Bool) (cs : List Char) : Except Break (Literal × List Char) := do
  let (whole, cs) ← wholePart cs
  let (fraction, cs) ← fractionPart cs
  let (exponent, cs) ← exponentPart cs
  return (⟨negative, whole, fraction, exponent⟩, cs)

/-- Scans a number. -/
def number : List Char → Except Break (Literal × List Char)
  | '-' :: cs => unsigned true cs
  | cs => unsigned false cs

/-- The value of four hexadecimal digits. -/
def hexQuad? (a b c d : Char) : Option Nat := do
  let a ← Text.hexValue? a
  let b ← Text.hexValue? b
  let c ← Text.hexValue? c
  let d ← Text.hexValue? d
  return ((a * 16 + b) * 16 + c) * 16 + d

/-- Scans four hexadecimal digits.  They break off if fewer than four bytes are left. -/
def hexQuad (cs : List Char) : Except Break (Nat × List Char) :=
  let tooShort := (cs.take 4).foldl (fun n c => n + c.utf8Size) 0 < 4
  match cs with
  | a :: b :: c :: d :: rest =>
    match hexQuad? a b c d with
    | some n => .ok (n, rest)
    | none => .error (if tooShort then .truncated else .malformed)
  | _ => .error (if tooShort then .truncated else .malformed)

/-- The character that a backslash and a letter stand for. -/
def shortEscape? (c : Char) : Option Char :=
  if c = '"' ∨ c = '\\' ∨ c = '/' then some c
  else if c = 'b' then some '\x08'
  else if c = 'f' then some '\x0c'
  else if c = 'n' then some '\n'
  else if c = 'r' then some '\r'
  else if c = 't' then some '\t'
  else none

/-- Scans what follows a backslash, as a code unit of UTF-16. -/
def escape : List Char → Except Break (Nat × List Char)
  | [] => .error .truncated
  | 'u' :: cs => hexQuad cs
  | c :: cs =>
    match shortEscape? c with
    | some e => .ok (e.toNat, cs)
    | none => .error .malformed

/-- Whether a code unit is the first half of a surrogate pair. -/
def isHighSurrogate (unit : Nat) : Bool :=
  0xD800 ≤ unit && unit < 0xDC00

/-- Whether a code unit is the second half of a surrogate pair. -/
def isLowSurrogate (unit : Nat) : Bool :=
  0xDC00 ≤ unit && unit < 0xE000

/-- The character of a surrogate pair. -/
def surrogatePair (high low : Nat) : Char :=
  Char.ofNat (0x10000 + (high - 0xD800) * 0x400 + (low - 0xDC00))

/-- The outcome of scanning a string behind its opening quote: its characters, unless it holds
unpaired surrogates, and the rest of the text, or what is wrong for one who reads the string and for
one who skips it. -/
abbrev TextOutcome := Except (Break × Break) (Option (List Char) × List Char)

/-- Puts a character in front. -/
def TextOutcome.cons (c : Char) (o : TextOutcome) : TextOutcome :=
  o.map fun (cs, rest) => (cs.map (c :: ·), rest)

/-- Puts an unpaired surrogate in front, where a reader would have stopped already. -/
def TextOutcome.unpaired : TextOutcome → TextOutcome
  | .ok (_, rest) => .ok (none, rest)
  | .error (_, skipped) => .error (.malformed, skipped)

/-- Scans a string behind its opening quote. -/
def stringBody : Nat → List Char → TextOutcome
  | 0, _ => .error (.truncated, .truncated)
  | _ + 1, [] => .error (.truncated, .truncated)
  | n + 1, c :: cs =>
    if c = '"' then .ok (some [], cs)
    else if c = '\\' then
      match escape cs with
      | .error why => .error (why, why)
      | .ok (unit, rest) =>
        if isHighSurrogate unit then
          match rest with
          | [] => .error (.truncated, .truncated)
          | ['\\'] => .error (.truncated, .truncated)
          | '\\' :: 'u' :: more =>
            match hexQuad more with
            | .error why => .error (why, why)
            | .ok (low, after) =>
              if isLowSurrogate low then (stringBody n after).cons (surrogatePair unit low)
              else (stringBody n rest).unpaired
          | _ => (stringBody n rest).unpaired
        else if isLowSurrogate unit then (stringBody n rest).unpaired
        else (stringBody n rest).cons (Char.ofNat unit)
    else if c.toNat < 0x20 then .error (.malformed, .malformed)
    else (stringBody n cs).cons c

/-- The outline of one of the three words. -/
def wordOutline (expected : List Char) (v : Outline) (broken : Break → Outline) (cs : List Char) :
    Outline × Option (List Char) :=
  match word expected cs with
  | .ok rest => (v, some rest)
  | .error why => (broken why, none)

/-- The outline of a number. -/
def numberOutline (cs : List Char) : Outline × Option (List Char) :=
  match number cs with
  | .ok (l, rest) => (.num l, some rest)
  | .error why => (.brokenNumber why, none)

/-- The outline of a string behind its opening quote. -/
def stringOutline (fuel : Nat) (cs : List Char) : Outline × Option (List Char) :=
  match stringBody fuel cs with
  | .ok (s, rest) => (.str (s.map String.ofList), some rest)
  | .error (read, skipped) => (.brokenText read skipped, none)

mutual

/-- Scans a value. -/
def value : Nat → List Char → Outline × Option (List Char)
  | 0, _ => (.nothing .truncated, none)
  | n + 1, cs =>
    match skipSpace cs with
    | [] => (.nothing .truncated, none)
    | c :: rest =>
      if c = '[' then
        let (vs, stop, rest) := items n true rest
        (.arr vs stop, rest)
      else if c = '\x7b' then
        let (ms, stop, rest) := members n true rest
        (.obj ms stop, rest)
      else if c = '"' then stringOutline n rest
      else if c = 'n' then wordOutline "null".toList .null .brokenNull (c :: rest)
      else if c = 't' then wordOutline "true".toList (.bool true) .brokenBool (c :: rest)
      else if c = 'f' then wordOutline "false".toList (.bool false) .brokenBool (c :: rest)
      else if c = '-' ∨ c.isDigit then numberOutline (c :: rest)
      else (.nothing .malformed, none)

/-- Scans the items of an array up to the closing bracket. -/
def items : Nat → Bool → List Char → List Outline × Stop × Option (List Char)
  | 0, _, _ => ([], .truncated, none)
  | n + 1, first, cs =>
    match skipSpace cs with
    | [] => ([], .truncated, none)
    | c :: rest =>
      if c = ']' then ([], .closed, some rest)
      else if first then itemsFrom n (c :: rest)
      else if c = ',' then
        match skipSpace rest with
        | [] => ([], .dangling, none)
        | d :: rest => if d = ']' then ([], .malformed, none) else itemsFrom n (d :: rest)
      else ([], .malformed, none)

/-- Scans one item and those that follow it. -/
def itemsFrom : Nat → List Char → List Outline × Stop × Option (List Char)
  | 0, _ => ([], .truncated, none)
  | n + 1, cs =>
    match value n cs with
    | (v, none) => ([v], .malformed, none)
    | (v, some rest) =>
      let (vs, stop, rest) := items n false rest
      (v :: vs, stop, rest)

/-- Scans the members of an object up to the closing bracket. -/
def members : Nat → Bool → List Char → List (Key × Outline) × Stop × Option (List Char)
  | 0, _, _ => ([], .truncated, none)
  | n + 1, first, cs =>
    match skipSpace cs with
    | [] => ([], .truncated, none)
    | c :: rest =>
      if c = '\x7d' then ([], .closed, some rest)
      else if first then membersFrom n (c :: rest)
      else if c = ',' then
        match skipSpace rest with
        | [] => ([], .dangling, none)
        | d :: rest => if d = '\x7d' then ([], .malformed, none) else membersFrom n (d :: rest)
      else ([], .malformed, none)

/-- Scans one member and those that follow it. -/
def membersFrom : Nat → List Char → List (Key × Outline) × Stop × Option (List Char)
  | 0, _ => ([], .truncated, none)
  | _ + 1, [] => ([], .truncated, none)
  | n + 1, c :: cs =>
    if c = '"' then
      match stringBody n cs with
      | .error (read, skipped) => ([(.broken read skipped, .nothing .malformed)], .malformed, none)
      | .ok (s, rest) =>
        let key : Key := match s with
          | some s => .text (String.ofList s)
          | none => .unpaired
        match skipSpace rest with
        | [] => ([(key, .nothing .truncated)], .malformed, none)
        | d :: rest =>
          if d = ':' then
            match value n rest with
            | (v, none) => ([(key, v)], .malformed, none)
            | (v, some rest) =>
              let (ms, stop, rest) := members n false rest
              ((key, v) :: ms, stop, rest)
          else ([(key, .nothing .malformed)], .malformed, none)
    else ([(.missing, (value n (c :: cs)).1)], .malformed, none)

end

end Scan

/-- The outline of a text, and what is left of the text behind it. -/
def Outline.ofChars (cs : List Char) : Outline × Option (List Char) :=
  Scan.value (4 * cs.length + 4) cs

/-- Checks that nothing but white space is left behind a value. -/
def checkRest : Option (List Char) → Except Break Unit
  | none => .error .malformed
  | some rest => if Scan.skipSpace rest = [] then .ok () else .error .malformed

end Json
end DesignPages
