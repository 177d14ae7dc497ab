import DesignPages.Markup.Escape
import Mathlib.Data.List.Basic
import Mathlib.Tactic.SplitIfs

/-!
# Entities

An entity stands for a character that markup gives a meaning of its own.  This module decodes the
entities in a text from left to right.  An escape writes every character as an entity that stands for
it, or as itself where it needs none, so that an escaped text decodes to the text that was escaped,
even if that text looks escaped itself.
-/

namespace DesignPages
namespace Markup

/-- The names of the entities, and the characters that they stand for. -/
def entities : List (List Char × Char) :=
  [("amp".toList, '&'), ("lt".toList, '<'), ("gt".toList, '>'), ("quot".toList, '"'),
    ("#123".toList, '\x7b'), ("#125".toList, '\x7d')]

/-- Decodes the rest of a text.  Behind an ampersand, `name` is what was read of the name of an
entity so far. -/
def decodeFrom : Option (List Char) → List Char → Option (List Char)
  | none, [] => some []
  | some _, [] => none
  | none, c :: cs =>
    if c = '&' then decodeFrom (some []) cs else (decodeFrom none cs).map (c :: ·)
  | some name, c :: cs =>
    if c = ';' then (entities.lookup name).bind fun d => (decodeFrom none cs).map (d :: ·)
    else decodeFrom (some (name ++ [c])) cs

/-- The text that stands behind a text with entities.  An ampersand that begins no entity spoils
it. -/
def decodeEntities (cs : List Char) : Option (List Char) :=
  decodeFrom none cs

/-! ## Characters -/

/-- The characters are written for the character `c` where those of `reserved` have a meaning: they
are an entity for it, or it stands for itself. -/
def StandsFor (reserved cs : List Char) (c : Char) : Prop :=
  (∃ e ∈ entities, e.2 = c ∧ cs = '&' :: (e.1 ++ [';'])) ∨ (cs = [c] ∧ c ∉ '&' :: reserved)

theorem escapeTextChar_standsFor (c : Char) :
    StandsFor ['<', '>', '\x7b', '\x7d'] (escapeTextChar c) c := by
  unfold escapeTextChar
  split_ifs with hamp hlt hgt hopen hclose
  iterate 5
    subst c
    exact .inl (by decide)
  exact .inr ⟨rfl, by simp [hamp, hlt, hgt, hopen, hclose]⟩

theorem escapeAttributeChar_standsFor (c : Char) :
    StandsFor ['"', '<', '>', '\x7b', '\x7d'] (escapeAttributeChar c) c := by
  unfold escapeAttributeChar
  split_ifs with hquote
  · subst c
    exact .inl (by decide)
  · rcases escapeTextChar_standsFor c with hentity | ⟨hself, hc⟩
    · exact .inl hentity
    · exact .inr ⟨hself, by simpa [hquote] using hc⟩

/-- An entity is read as the character that it stands for. -/
theorem decodeFrom_entity {e : List Char × Char} (he : e ∈ entities) (rest : List Char) :
    decodeFrom none ('&' :: (e.1 ++ ';' :: rest)) = (decodeFrom none rest).map (e.2 :: ·) := by
  simp only [entities, List.mem_cons, List.not_mem_nil, or_false] at he
  rcases he with rfl | rfl | rfl | rfl | rfl | rfl <;> rfl

theorem StandsFor.decodeFrom_append {reserved cs : List Char} {c : Char}
    (h : StandsFor reserved cs c) (rest : List Char) :
    decodeFrom none (cs ++ rest) = (decodeFrom none rest).map (c :: ·) := by
  rcases h with ⟨e, he, rfl, rfl⟩ | ⟨rfl, hc⟩
  · simpa using decodeFrom_entity he rest
  · have hamp : c ≠ '&' := fun heq => hc (List.mem_cons.mpr (.inl heq))
    exact if_neg hamp

/-- A character that no entity stands for stays as it is. -/
theorem escapeAttributeChar_eq_self {c : Char} (h : c ∉ ['&', '"', '<', '>', '\x7b', '\x7d']) :
    escapeAttributeChar c = [c] := by
  simp only [List.mem_cons, List.not_mem_nil, or_false, not_or] at h
  obtain ⟨hamp, hquote, hlt, hgt, hopen, hclose⟩ := h
  rw [escapeAttributeChar, if_neg hquote, escapeTextChar, if_neg hamp, if_neg hlt, if_neg hgt,
    if_neg hopen, if_neg hclose]

/-! ## Texts -/

theorem escapeAttribute_eq_self {cs : List Char} (h : ∀ c ∈ cs, escapeAttributeChar c = [c]) :
    escapeAttribute cs = cs := by
  induction cs with
  | nil => rfl
  | cons c cs ih =>
      obtain ⟨hc, hcs⟩ := List.forall_mem_cons.mp h
      rw [escapeAttribute] at ih ⊢
      rw [List.flatMap_cons, hc, ih hcs, List.singleton_append]

/-- If what is written for a character stands for it, what is written for a text decodes to it. -/
theorem decodeEntities_flatMap {reserved : List Char} {escape : Char → List Char}
    (h : ∀ c, StandsFor reserved (escape c) c) (cs : List Char) :
    decodeEntities (cs.flatMap escape) = some cs := by
  induction cs with
  | nil => rfl
  | cons c cs ih =>
      rw [decodeEntities] at ih ⊢
      rw [List.flatMap_cons, (h c).decodeFrom_append, ih, Option.map_some]

@[simp] theorem decodeEntities_escapeText (cs : List Char) :
    decodeEntities (escapeText cs) = some cs :=
  decodeEntities_flatMap escapeTextChar_standsFor cs

@[simp] theorem decodeEntities_escapeAttribute (cs : List Char) :
    decodeEntities (escapeAttribute cs) = some cs :=
  decodeEntities_flatMap escapeAttributeChar_standsFor cs

example : decodeEntities "&amp;lt; &#123;".toList = some "&lt; \x7b".toList := by decide

end Markup
end DesignPages
