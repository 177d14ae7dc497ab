import DesignPages.Proofs.Markup.Entity
import Mathlib.Data.List.Infix

/-!
# Escaping loses nothing and builds nothing

An escape writes every character as an entity that stands for it, or as itself where it needs none.
All that can be asked of it follows from this: the characters that it never writes, that every
ampersand begins an entity, and that the entities decode to the text.

Texts are escaped in one pass here.  Two passes write the same, one for the entities of tags and quotes
and one that replaces the braces.  They must come in this order: the entities of the second pass hold
ampersands, which the first one would escape again.
-/

namespace DesignPages
namespace Markup

/-! ## Texts -/

/-- A character that a text does not hold can only occur behind it. -/
theorem exists_of_append_eq {c : Char} {l cs front back : List Char} (hl : c ∉ l)
    (h : l ++ cs = front ++ c :: back) :
    ∃ front', front = l ++ front' ∧ cs = front' ++ c :: back := by
  rcases List.append_eq_append_iff.mp h with ⟨front', hfront, hcs⟩ | ⟨tail, hl', hcons⟩
  · exact ⟨front', hfront, hcs⟩
  · cases tail with
    | nil => exact ⟨[], by simpa using hl'.symm, hcons.symm⟩
    | cons d tail =>
        obtain ⟨rfl, -⟩ := List.cons.inj hcons
        exact absurd (by simp [hl']) hl

theorem cons_suffix_append {c : Char} {l rest cs : List Char} (hl : c ∉ l)
    (h : c :: rest <:+ l ++ cs) : c :: rest <:+ cs := by
  obtain ⟨front, hfront⟩ := h
  obtain ⟨front', -, hcs⟩ := exists_of_append_eq hl hfront.symm
  exact ⟨front', hcs.symm⟩

section Texts

variable {reserved : List Char} {escape : Char → List Char}
  (h : ∀ c, StandsFor reserved (escape c) c)
include h

/-- Reserved characters are never written, unless an entity has one in its name. -/
theorem reserved_not_mem_flatMap
    (hreserved : ∀ e ∈ entities, ('&' :: (e.1 ++ [';'])).all (· ∉ reserved) = true)
    {d : Char} (hd : d ∈ reserved) (cs : List Char) : d ∉ cs.flatMap escape := by
  intro hmem
  obtain ⟨c, -, hmem⟩ := List.mem_flatMap.mp hmem
  rcases h c with ⟨e, he, -, hc⟩ | ⟨hself, hc⟩
  · rw [hc] at hmem
    exact of_decide_eq_true (List.all_eq_true.mp (hreserved e he) d hmem) hd
  · rw [hself] at hmem
    obtain rfl : d = c := List.mem_singleton.mp hmem
    exact hc (List.mem_cons_of_mem _ hd)

/-- Every ampersand begins an entity. -/
theorem exists_entity_of_suffix {rest cs : List Char} (hsuffix : '&' :: rest <:+ cs.flatMap escape) :
    ∃ e ∈ entities, e.1 ++ [';'] <+: rest := by
  have hnames : ∀ e ∈ entities, '&' ∉ e.1 ++ [';'] := by decide
  induction cs with
  | nil => exact absurd (List.suffix_nil.mp hsuffix) (List.cons_ne_nil _ _)
  | cons c cs ih =>
      rw [List.flatMap_cons] at hsuffix
      rcases h c with ⟨e, he, -, hc⟩ | ⟨hself, hc⟩
      · rw [hc, List.cons_append] at hsuffix
        rcases List.suffix_cons_iff.mp hsuffix with heq | hsuffix
        · refine ⟨e, he, ?_⟩
          rw [(List.cons.inj heq).2]
          exact List.prefix_append _ _
        · exact ih (cons_suffix_append (hnames e he) hsuffix)
      · have hamp : '&' ∉ escape c := by
          rw [hself, List.mem_singleton]
          rintro rfl
          exact hc List.mem_cons_self
        exact ih (cons_suffix_append hamp hsuffix)

end Texts

theorem reserved_not_mem_escapeText {d : Char} (hd : d ∈ ['<', '>', '\x7b', '\x7d'])
    (cs : List Char) : d ∉ escapeText cs :=
  reserved_not_mem_flatMap escapeTextChar_standsFor (by decide) hd cs

theorem reserved_not_mem_escapeAttribute {d : Char} (hd : d ∈ ['"', '<', '>', '\x7b', '\x7d'])
    (cs : List Char) : d ∉ escapeAttribute cs :=
  reserved_not_mem_flatMap escapeAttributeChar_standsFor (by decide) hd cs

/-! ## Two passes -/

/-- Writes something else for a character wherever it stands. -/
def replaceChar (c : Char) (word cs : List Char) : List Char :=
  cs.flatMap fun d => if d = c then word else [d]

/-- Replaces braces, the opening ones first. -/
def neutralizeBraces (cs : List Char) : List Char :=
  replaceChar '\x7d' "&#125;".toList (replaceChar '\x7b' "&#123;".toList cs)

/-- A character between tags, without regard to braces. -/
def encodeTextChar (c : Char) : List Char :=
  if c = '&' then "&amp;".toList
  else if c = '<' then "&lt;".toList
  else if c = '>' then "&gt;".toList
  else [c]

/-- A character inside a quoted attribute value, without regard to braces. -/
def encodeAttributeChar (c : Char) : List Char :=
  if c = '"' then "&quot;".toList else encodeTextChar c

theorem replaceChar_of_ne {c d : Char} (h : d ≠ c) (word : List Char) :
    replaceChar c word [d] = [d] := by
  simp [replaceChar, h]

theorem neutralizeBraces_flatMap (f : Char → List Char) (cs : List Char) :
    neutralizeBraces (cs.flatMap f) = cs.flatMap fun c => neutralizeBraces (f c) := by
  simp only [neutralizeBraces, replaceChar, List.flatMap_assoc]

theorem neutralizeBraces_encodeTextChar (c : Char) :
    neutralizeBraces (encodeTextChar c) = escapeTextChar c := by
  unfold encodeTextChar escapeTextChar
  split_ifs with hamp hlt hgt hopen hclose
  iterate 3 decide
  · subst c
    decide
  · subst c
    decide
  · rw [neutralizeBraces, replaceChar_of_ne hopen, replaceChar_of_ne hclose]

theorem neutralizeBraces_encodeAttributeChar (c : Char) :
    neutralizeBraces (encodeAttributeChar c) = escapeAttributeChar c := by
  unfold encodeAttributeChar escapeAttributeChar
  split_ifs
  · decide
  · exact neutralizeBraces_encodeTextChar c

theorem neutralizeBraces_encodeText (cs : List Char) :
    neutralizeBraces (cs.flatMap encodeTextChar) = escapeText cs := by
  simp only [neutralizeBraces_flatMap, neutralizeBraces_encodeTextChar]
  rfl

theorem neutralizeBraces_encodeAttribute (cs : List Char) :
    neutralizeBraces (cs.flatMap encodeAttributeChar) = escapeAttribute cs := by
  simp only [neutralizeBraces_flatMap, neutralizeBraces_encodeAttributeChar]
  rfl

/-- In the other order the entity of a brace is escaped again. -/
example : (neutralizeBraces ['\x7b']).flatMap encodeTextChar = "&amp;#123;".toList := by decide

/-! ## Safety -/

/-- An escape by entities that keeps a text apart from the markup around it, where the reserved
characters have a meaning. -/
structure IsSafe (escape : List Char → List Char) (reserved : List Char) : Prop where
  injective : Function.Injective escape
  not_mem : ∀ cs, ∀ c ∈ reserved, c ∉ escape cs
  /-- Every ampersand begins an entity. -/
  ampersand : ∀ cs rest, '&' :: rest <:+ escape cs → ∃ e ∈ entities, e.1 ++ [';'] <+: rest
  decode : ∀ cs, decodeEntities (escape cs) = some cs
  append : ∀ cs ds, escape (cs ++ ds) = escape cs ++ escape ds

/-- An escape that writes every character as an entity or as itself is safe where it never writes the
reserved characters. -/
theorem isSafe_flatMap {reserved : List Char} {escape : Char → List Char}
    (h : ∀ c, StandsFor reserved (escape c) c)
    (hreserved : ∀ cs : List Char, ∀ c ∈ reserved, c ∉ cs.flatMap escape) :
    IsSafe (List.flatMap escape) reserved where
  injective := by
    intro cs ds heq
    have hdecoded : some cs = some ds := by
      rw [← decodeEntities_flatMap h cs, ← decodeEntities_flatMap h ds]
      exact congrArg decodeEntities heq
    exact Option.some.inj hdecoded
  not_mem := hreserved
  ampersand := fun _ _ hsuffix => exists_entity_of_suffix h hsuffix
  decode := decodeEntities_flatMap h
  append := fun _ _ => List.flatMap_append

/-- Texts between tags and texts in attributes are safe.  Neither holds a bracket or a brace, those in
attributes hold no quote either, and both decode to the text that was escaped, whatever it holds.  The
two passes, entities first and braces second, write the same. -/
theorem escape_isSafe :
    IsSafe escapeText ['<', '>', '\x7b', '\x7d'] ∧
      IsSafe escapeAttribute ['"', '<', '>', '\x7b', '\x7d'] ∧
      (∀ cs, escapeText cs = neutralizeBraces (cs.flatMap encodeTextChar)) ∧
      ∀ cs, escapeAttribute cs = neutralizeBraces (cs.flatMap encodeAttributeChar) := by
  refine ⟨?_, ?_, ?_, ?_⟩
  · exact isSafe_flatMap escapeTextChar_standsFor
      fun cs _ hd => reserved_not_mem_escapeText hd cs
  · exact isSafe_flatMap escapeAttributeChar_standsFor
      fun cs _ hd => reserved_not_mem_escapeAttribute hd cs
  · exact fun cs => (neutralizeBraces_encodeText cs).symm
  · exact fun cs => (neutralizeBraces_encodeAttribute cs).symm

/-- A text that looks escaped decodes to itself. -/
example : escapeText "&#123; &amp;lt;".toList = "&amp;#123; &amp;amp;lt;".toList := by decide

end Markup
end DesignPages
