import DesignPages.Markup.Printer
import DesignPages.Proofs.Markup.Escape

/-!
# Skeletons of markup

The skeleton of a piece of markup keeps its elements, the names of its attributes and its expressions,
and empties every text.  This module shows that the characters which build elements and expressions
depend on the skeleton alone: no text adds one of them or takes one away.
-/

namespace DesignPages
namespace Markup

/-! ## Characters that build elements and expressions -/

/-- The characters that build elements and expressions: angle brackets and braces. -/
def isStructural (c : Char) : Bool :=
  c == '<' || c == '>' || c == '\x7b' || c == '\x7d'

/-- The characters of a text that build elements and expressions, in order. -/
def structureOf (cs : List Char) : List Char :=
  cs.filter isStructural

@[simp] theorem structureOf_nil : structureOf [] = [] := rfl

@[simp] theorem structureOf_append (cs ds : List Char) :
    structureOf (cs ++ ds) = structureOf cs ++ structureOf ds :=
  List.filter_append ..

theorem structureOf_cons (c : Char) (cs : List Char) :
    structureOf (c :: cs) = if isStructural c then c :: structureOf cs else structureOf cs :=
  List.filter_cons

theorem structureOf_flatMap {α : Type} (f : α → List Char) (xs : List α) :
    structureOf (xs.flatMap f) = xs.flatMap fun x => structureOf (f x) := by
  induction xs with
  | nil => rfl
  | cons x xs ih => simp [ih]

theorem structureOf_eq_nil {cs : List Char} (h : ∀ c ∈ ['<', '>', '\x7b', '\x7d'], c ∉ cs) :
    structureOf cs = [] := by
  refine List.filter_eq_nil_iff.mpr fun c hc hstructural => h c ?_ hc
  simpa [isStructural, or_assoc] using hstructural

/-- A text between tags builds nothing. -/
@[simp] theorem structureOf_escapeText (cs : List Char) : structureOf (escapeText cs) = [] :=
  structureOf_eq_nil fun _ hd => reserved_not_mem_escapeText hd cs

/-- A text in an attribute builds nothing. -/
@[simp] theorem structureOf_escapeAttribute (cs : List Char) :
    structureOf (escapeAttribute cs) = [] :=
  structureOf_eq_nil fun _ hd => reserved_not_mem_escapeAttribute (List.mem_cons_of_mem _ hd) cs

theorem joinLines_cons {ls : List (List Char)} (l : List Char) (h : ls ≠ []) :
    joinLines (l :: ls) = l ++ '\n' :: joinLines ls := by
  obtain ⟨l', ls, rfl⟩ := List.exists_cons_of_ne_nil h
  rw [joinLines, List.intercalate_cons_cons, List.append_assoc, List.singleton_append, joinLines]

/-- Line breaks build nothing. -/
theorem structureOf_joinLines (ls : List (List Char)) :
    structureOf (joinLines ls) = ls.flatMap structureOf := by
  have hbreak : isStructural '\n' = false := by decide
  induction ls with
  | nil => rfl
  | cons l ls ih =>
      cases ls with
      | nil => simp [joinLines]
      | cons l' ls =>
          rw [joinLines_cons l (List.cons_ne_nil l' ls), structureOf_append,
            structureOf_cons, hbreak, if_neg Bool.false_ne_true, ih]
          exact List.flatMap_cons.symm

/-! ## Skeletons -/

/-- The value of an attribute without its text. -/
def AttributeValue.skeleton : AttributeValue → AttributeValue
  | text _ => text ""
  | expression e => expression e

/-- An attribute without the text of its value. -/
def Attribute.skeleton (a : Attribute) : Attribute :=
  ⟨a.name, a.value.skeleton⟩

/-- An inline piece without its text. -/
def Inline.skeleton : Inline → Inline
  | text _ => text ""
  | copyrightSign => copyrightSign
  | expression e => expression e

mutual

/-- An element without its texts. -/
def Element.skeleton : Element → Element
  | .line content => .line (content.map Inline.skeleton)
  | .inline tag attributes content =>
    .inline tag (attributes.map Attribute.skeleton) (content.map Inline.skeleton)
  | .void tag attributes => .void tag (attributes.map Attribute.skeleton)
  | .block tag attributes children =>
    .block tag (attributes.map Attribute.skeleton) (skeletonOfAll children)

/-- Elements without their texts. -/
def skeletonOfAll : List Element → List Element
  | [] => []
  | e :: es => e.skeleton :: skeletonOfAll es

end

theorem skeletonOfAll_eq_map (es : List Element) :
    skeletonOfAll es = es.map Element.skeleton := by
  induction es with
  | nil => rfl
  | cons e es ih => simp [skeletonOfAll, ih]

theorem AttributeValue.structureOf_chars_skeleton (v : AttributeValue) :
    structureOf v.skeleton.chars = structureOf v.chars := by
  cases v with
  | text s => simp [skeleton, chars, structureOf_cons]
  | expression e => rfl

theorem Attribute.structureOf_chars_skeleton (a : Attribute) :
    structureOf a.skeleton.chars = structureOf a.chars := by
  have hvalue := a.value.structureOf_chars_skeleton
  simp [Attribute.chars, Attribute.skeleton, structureOf_cons, hvalue]

theorem structureOf_attributesChars_skeleton (as : List Attribute) :
    structureOf (attributesChars (as.map Attribute.skeleton)) =
      structureOf (attributesChars as) := by
  simp [attributesChars, structureOf_flatMap, List.flatMap_map,
    Attribute.structureOf_chars_skeleton]

theorem Inline.structureOf_chars_skeleton (i : Inline) :
    structureOf i.skeleton.chars = structureOf i.chars := by
  cases i with
  | text s => exact (structureOf_escapeText _).trans (structureOf_escapeText _).symm
  | copyrightSign => rfl
  | expression e => rfl

theorem structureOf_inlineChars_skeleton (content : List Inline) :
    structureOf (inlineChars (content.map Inline.skeleton)) =
      structureOf (inlineChars content) := by
  simp [inlineChars, structureOf_flatMap, List.flatMap_map, Inline.structureOf_chars_skeleton]

theorem structureOf_openTag_skeleton (tag : String) (as : List Attribute) :
    structureOf (openTag tag (as.map Attribute.skeleton)) = structureOf (openTag tag as) := by
  simp [openTag, structureOf_cons, structureOf_attributesChars_skeleton]

theorem structureOf_voidTag_skeleton (tag : String) (as : List Attribute) :
    structureOf (voidTag tag (as.map Attribute.skeleton)) = structureOf (voidTag tag as) := by
  simp [voidTag, structureOf_cons, structureOf_attributesChars_skeleton]

mutual

/-- What builds elements and expressions in the lines of an element is that of its skeleton. -/
theorem Element.structureOf_lines_skeleton (level : ℕ) (e : Element) :
    (e.skeleton.lines level).flatMap structureOf = (e.lines level).flatMap structureOf := by
  cases e with
  | line content =>
      simp [Element.skeleton, Element.lines, structureOf_inlineChars_skeleton]
  | inline tag attributes content =>
      simp [Element.skeleton, Element.lines, structureOf_inlineChars_skeleton,
        structureOf_openTag_skeleton]
  | void tag attributes =>
      simp [Element.skeleton, Element.lines, structureOf_voidTag_skeleton]
  | block tag attributes children =>
      have hchildren := structureOf_linesOfAll_skeleton (level + 1) children
      simp [Element.skeleton, Element.lines, structureOf_openTag_skeleton, hchildren]

/-- The same for elements one after the other. -/
theorem structureOf_linesOfAll_skeleton (level : ℕ) (es : List Element) :
    (linesOfAll level (skeletonOfAll es)).flatMap structureOf =
      (linesOfAll level es).flatMap structureOf := by
  cases es with
  | nil => rfl
  | cons e es =>
      have hfirst := e.structureOf_lines_skeleton level
      have hrest := structureOf_linesOfAll_skeleton level es
      simp [skeletonOfAll, linesOfAll, hfirst, hrest]

end

/-- Elements with one skeleton are built from the same characters in the same order. -/
theorem structureOf_lines_congr (level : ℕ) {e e' : Element} (h : e.skeleton = e'.skeleton) :
    structureOf (joinLines (e.lines level)) = structureOf (joinLines (e'.lines level)) := by
  rw [structureOf_joinLines, structureOf_joinLines, ← e.structureOf_lines_skeleton, h,
    e'.structureOf_lines_skeleton]

end Markup
end DesignPages
