import DesignPages.Proofs.Component.Structure
import DesignPages.Proofs.Json.Scan

/-!
# Reading declarations

This module reads the line of a component that declares its parameters, and the names that an
expression uses.  Whatever the defaults hold, the line reads back as the parameters with their
defaults: no default ends the line or declares a parameter more.
-/

namespace DesignPages
namespace Script

/-! ## Literals -/

/-- Reads a string literal in front of a text.  The result holds the text that it denotes, and what
follows it. -/
def literal? : List Char → Option (List Char × List Char)
  | '"' :: cs =>
    match Json.Scan.stringBody cs.length cs with
    | .ok (some value, rest) => some (value, rest)
    | _ => none
  | _ => none

theorem literal?_append (cs rest : List Char) :
    literal? (Json.stringLiteralChars cs ++ rest) = some (cs, rest) := by
  have hlength : cs.length < (cs.flatMap Json.escapeChar ++ '"' :: rest).length := by
    have hle := Json.Scan.length_le_flatMap_escapeChar cs
    rw [List.length_append, List.length_cons]
    omega
  have hbody := Json.Scan.stringBody_literal cs rest hlength
  have hchars : Json.stringLiteralChars cs ++ rest =
      '"' :: (cs.flatMap Json.escapeChar ++ '"' :: rest) := by
    simp [Json.stringLiteralChars]
  simp only [hchars, literal?, hbody]

/-! ## Declarations -/

/-- What follows the last default. -/
def declarationEnd : List Char := " \x7d = Astro.props;".toList

/-- Reads names with their defaults up to the end of the line. -/
def defaults? : ℕ → List Char → Option (List (List Char × List Char))
  | 0, _ => none
  | n + 1, cs => do
    let name := cs.takeWhile Char.isAlphanum
    let cs ← (cs.dropWhile Char.isAlphanum).dropPrefix? " = ".toList
    let (value, cs) ← literal? cs
    if cs = declarationEnd then
      return [(name, value)]
    else
      let cs ← cs.dropPrefix? ", ".toList
      let ds ← defaults? n cs
      return (name, value) :: ds

/-- The names on the line that declares parameters, each with its default. -/
def declaration? (cs : List Char) : Option (List (List Char × List Char)) := do
  let cs ← cs.dropPrefix? "const \x7b ".toList
  defaults? cs.length cs

theorem dropPrefix?_append (front cs : List Char) : (front ++ cs).dropPrefix? front = some cs :=
  List.dropPrefix?_append_of_beq cs (beq_self_eq_true front)

/-- How a default reads back. -/
def readBack (d : Markup.Param × String) : List Char × List Char :=
  (d.1.name.toList, d.2.toList)

theorem defaults?_append (n : ℕ) (d : Markup.Param × String) (rest : List Char) :
    defaults? (n + 1) (ComponentSource.defaultChars d ++ rest) =
      if rest = declarationEnd then some [readBack d]
      else do
        let cs ← rest.dropPrefix? ", ".toList
        let ds ← defaults? n cs
        return readBack d :: ds := by
  let behindName := " = ".toList ++ (Json.stringLiteralChars d.2.toList ++ rest)
  have hchars : ComponentSource.defaultChars d ++ rest = d.1.name.toList ++ behindName := by
    simp [ComponentSource.defaultChars, behindName]
  have hletters : ∀ c ∈ d.1.name.toList, c.isAlphanum = true := by
    rw [← List.all_eq_true]
    cases d.1 <;> rfl
  have hstop : behindName.head?.any Char.isAlphanum = false := rfl
  have hname := Text.takeWhile_run hletters hstop
  have hbehind := Text.dropWhile_run hletters hstop
  rw [hchars, defaults?, hname, hbehind, dropPrefix?_append]
  simp [literal?_append, readBack]

theorem length_le_intercalate {α : Type} {separator : List α} (h : separator ≠ [])
    (ls : List (List α)) : ls.length ≤ (separator.intercalate ls).length + 1 := by
  induction ls with
  | nil => exact Nat.zero_le _
  | cons l ls ih =>
      cases ls with
      | nil => exact Nat.le_add_left 1 _
      | cons l' ls =>
          have hseparator := List.length_pos_iff.mpr h
          rw [List.intercalate_cons_cons, List.length_append, List.length_append, List.length_cons]
          omega

theorem defaults?_intercalate (d : Markup.Param × String) (ds : List (Markup.Param × String))
    (extra : ℕ) :
    defaults? (extra + ds.length + 1)
        ((", ".toList).intercalate ((d :: ds).map ComponentSource.defaultChars) ++ declarationEnd) =
      some ((d :: ds).map readBack) := by
  induction ds generalizing d with
  | nil =>
      rw [List.map_singleton, List.intercalate_singleton, defaults?_append, if_pos rfl]
      rfl
  | cons d' ds ih =>
      let more := (", ".toList).intercalate ((d' :: ds).map ComponentSource.defaultChars) ++
        declarationEnd
      have hsplit : (", ".toList).intercalate ((d :: d' :: ds).map ComponentSource.defaultChars) ++
          declarationEnd = ComponentSource.defaultChars d ++ (", ".toList ++ more) := by
        simp only [List.map_cons, List.intercalate_cons_cons, List.append_assoc, more]
      have hgoes : ", ".toList ++ more ≠ declarationEnd := by
        intro heq
        have hhead : some ',' = declarationEnd.head? := congrArg List.head? heq
        exact absurd hhead (by decide)
      have hmore : defaults? (extra + (d' :: ds).length) more = some ((d' :: ds).map readBack) :=
        ih d'
      rw [hsplit, defaults?_append, if_neg hgoes, dropPrefix?_append]
      simp only [Option.bind_eq_bind, Option.bind_some, hmore]
      rfl

/-- The line that declares parameters reads back as these, with their defaults. -/
theorem declaration?_declaration {ds : List (Markup.Param × String)} (h : ds ≠ []) :
    declaration? (ComponentSource.declaration ds) = some (ds.map readBack) := by
  obtain ⟨d, ds, rfl⟩ := List.exists_cons_of_ne_nil h
  let pairs := (", ".toList).intercalate ((d :: ds).map ComponentSource.defaultChars)
  have hchars : ComponentSource.declaration (d :: ds) =
      "const \x7b ".toList ++ (pairs ++ declarationEnd) := by
    rw [ComponentSource.declaration_eq, List.append_assoc]
    rfl
  have hlength : ds.length + 1 ≤ (pairs ++ declarationEnd).length := by
    have hseparator : ", ".toList ≠ [] := by decide
    have hpairs := length_le_intercalate hseparator
      ((d :: ds).map ComponentSource.defaultChars)
    have hend : 0 < declarationEnd.length := by decide
    rw [List.length_map, List.length_cons] at hpairs
    rw [List.length_append]
    exact hpairs.trans (Nat.add_le_add_left hend _)
  obtain ⟨extra, hextra⟩ := Nat.exists_eq_add_of_le' hlength
  rw [hchars, declaration?, dropPrefix?_append]
  simp only [Option.bind_eq_bind, Option.bind_some]
  rw [hextra, ← Nat.add_assoc]
  exact defaults?_intercalate d ds extra

/-! ## Names in expressions -/

/-- The words that an expression consists of, and the characters between them. -/
def words (cs : List Char) : List (List Char) :=
  cs.splitBy fun c d => c.isAlphanum == d.isAlphanum

/-- The names that an expression uses: its words that begin with a letter, but for those behind a
point, which name a member of another value. -/
def names (cs : List Char) : List (List Char) :=
  ((([] :: words cs).zip (words cs)).filter fun (before, word) =>
    before.getLast? != some '.' && word.head?.any Char.isAlpha).map Prod.snd

theorem names_param (p : Markup.Param) :
    names (Markup.Expression.param p).body = [p.name.toList] := by
  cases p <;> decide

theorem names_initial (p : Markup.Param) :
    names (Markup.Expression.initial p).body = [p.name.toList] := by
  cases p <;> decide

end Script

namespace Template

theorem defaults_ne_nil (c : Category) (name : String) (texts : List String) :
    defaults c name texts ≠ [] := by
  cases c <;> exact List.cons_ne_nil _ _

end Template
end DesignPages
