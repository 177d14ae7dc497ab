import DesignPages.Proofs.Markup.Tree
import Mathlib.Data.List.Infix

/-!
# Lines of a text

This module counts how often a line of its own occurs in a text that is put together from lines, and
shows that an element whose texts stay on one line is printed on the lines that it has, each of them
behind its indentation.
-/

namespace DesignPages
namespace Markup

/-! ## Occurrences -/

/-- How often a word occurs in a text; two occurrences may overlap. -/
def occurrences (word cs : List Char) : ℕ :=
  cs.tails.countP word.isPrefixOf

theorem occurrences_cons (word : List Char) (c : Char) (cs : List Char) :
    occurrences word (c :: cs) =
      occurrences word cs + if word.isPrefixOf (c :: cs) then 1 else 0 := by
  rw [occurrences, List.tails_cons, List.countP_cons]
  rfl

/-- A word that begins with a line feed does not begin inside a line. -/
theorem occurrences_append {l : List Char} (h : '\n' ∉ l) (word cs : List Char) :
    occurrences ('\n' :: word) (l ++ cs) = occurrences ('\n' :: word) cs := by
  induction l with
  | nil => rfl
  | cons c l ih =>
      obtain ⟨hc, hl⟩ : '\n' ≠ c ∧ '\n' ∉ l := by simpa using h
      have hno : ('\n' :: word).isPrefixOf (c :: (l ++ cs)) = false := by
        simp [List.isPrefixOf, hc]
      rw [List.cons_append, occurrences_cons, hno, ih hl]
      rfl

theorem prefix_of_line_iff {word l rest : List Char} (hword : '\n' ∉ word) (hl : '\n' ∉ l) :
    word ++ ['\n'] <+: l ++ '\n' :: rest ↔ word = l := by
  induction word generalizing l with
  | nil =>
      cases l with
      | nil => simp
      | cons c l =>
          have hc : '\n' ≠ c := by
            rintro rfl
            exact hl List.mem_cons_self
          simp [hc]
  | cons c word ih =>
      obtain ⟨hc, hword⟩ : '\n' ≠ c ∧ '\n' ∉ word := by simpa using hword
      cases l with
      | nil => simp [Ne.symm hc]
      | cons d l =>
          have hl' : '\n' ∉ l := fun h => hl (List.mem_cons_of_mem d h)
          simp [List.cons_prefix_cons, ih hword hl']

/-- Of lines behind line breaks, those that are a word stand between two breaks as often as they
occur before the last line. -/
theorem occurrences_flatMap {word : List Char} {ls : List (List Char)} (hword : '\n' ∉ word)
    (hls : ∀ l ∈ ls, '\n' ∉ l) :
    occurrences ('\n' :: (word ++ ['\n'])) (ls.flatMap ('\n' :: ·)) = ls.dropLast.count word := by
  induction ls with
  | nil => rfl
  | cons l ls ih =>
      have hl := hls l List.mem_cons_self
      have hrest := ih fun l' hl' => hls l' (List.mem_cons_of_mem l hl')
      rw [List.flatMap_cons, List.cons_append, occurrences_cons, occurrences_append hl, hrest]
      cases ls with
      | nil =>
          have hno : ¬('\n' :: (word ++ ['\n'])).isPrefixOf ('\n' :: (l ++ [])) = true := by
            rw [List.isPrefixOf_iff_prefix, List.cons_prefix_cons, List.append_nil]
            rintro ⟨-, hfront⟩
            exact hl (hfront.subset (List.mem_append_right word (List.mem_singleton_self '\n')))
          rw [List.flatMap_nil, if_neg hno]
          rfl
      | cons l' ls =>
          have hiff : ('\n' :: (word ++ ['\n'])).isPrefixOf
              ('\n' :: (l ++ (l' :: ls).flatMap ('\n' :: ·))) = true ↔ word = l := by
            rw [List.isPrefixOf_iff_prefix, List.cons_prefix_cons, List.flatMap_cons,
              List.cons_append, prefix_of_line_iff hword hl]
            exact and_iff_right rfl
          rw [List.dropLast_cons_cons, List.count_cons]
          by_cases heq : word = l
          · rw [if_pos (hiff.mpr heq), if_pos (beq_iff_eq.mpr heq.symm)]
          · rw [if_neg (mt hiff.mp heq), if_neg fun h => heq (beq_iff_eq.mp h).symm]

/-- How often a line occurs with a line break on either side. -/
theorem occurrences_joinLines {word : List Char} {ls : List (List Char)} (hword : '\n' ∉ word)
    (hls : ∀ l ∈ ls, '\n' ∉ l) :
    occurrences ('\n' :: (word ++ ['\n'])) (joinLines ls) = ls.tail.dropLast.count word := by
  cases ls with
  | nil => rfl
  | cons l ls =>
      have hl := hls l List.mem_cons_self
      have hrest := occurrences_flatMap hword fun l' hl' => hls l' (List.mem_cons_of_mem l hl')
      rw [joinLines_eq_append_flatMap, occurrences_append hl, hrest, List.tail_cons]

/-! ## Lines of elements -/

/-- A part that stays on one line. -/
def Part.OnOneLine : Part → Prop
  | name s => '\n' ∉ s.toList
  | text s => '\n' ∉ s.toList
  | expression _ => True

theorem lineFeed_not_mem_escapeTextChar {c : Char} (h : c ≠ '\n') : '\n' ∉ escapeTextChar c := by
  unfold escapeTextChar
  split_ifs
  iterate 5 decide
  simpa using h.symm

theorem lineFeed_not_mem_escapeAttributeChar {c : Char} (h : c ≠ '\n') :
    '\n' ∉ escapeAttributeChar c := by
  unfold escapeAttributeChar
  by_cases hquote : c = '"'
  · rw [if_pos hquote]
    decide
  · rw [if_neg hquote]
    exact lineFeed_not_mem_escapeTextChar h

/-- A text on one line stays there if every other character is written without a line feed. -/
theorem lineFeed_not_mem_flatMap {escape : Char → List Char} {cs : List Char}
    (hescape : ∀ {c}, c ≠ '\n' → '\n' ∉ escape c) (h : '\n' ∉ cs) : '\n' ∉ cs.flatMap escape := by
  intro hmem
  obtain ⟨c, hc, hmem⟩ := List.mem_flatMap.mp hmem
  exact hescape (ne_of_mem_of_not_mem hc h) hmem

theorem lineFeed_not_mem_escapeText {cs : List Char} (h : '\n' ∉ cs) : '\n' ∉ escapeText cs :=
  lineFeed_not_mem_flatMap lineFeed_not_mem_escapeTextChar h

theorem lineFeed_not_mem_escapeAttribute {cs : List Char} (h : '\n' ∉ cs) :
    '\n' ∉ escapeAttribute cs :=
  lineFeed_not_mem_flatMap lineFeed_not_mem_escapeAttributeChar h

theorem Expression.lineFeed_not_mem_chars (e : Expression) : '\n' ∉ e.chars := by
  cases e with
  | param p => cases p <;> decide
  | initial p => cases p <;> decide
  | currentYear => decide
  | generator => decide

theorem Attribute.lineFeed_not_mem_chars {a : Attribute} (h : ∀ p ∈ a.parts, p.OnOneLine) :
    '\n' ∉ a.chars := by
  obtain ⟨name, value⟩ := a
  have hname : '\n' ∉ name.toList := h (.name name) List.mem_cons_self
  have hvalue : '\n' ∉ value.chars := by
    cases value with
    | text s =>
        have hs : '\n' ∉ s.toList := h (.text s) (List.mem_cons_of_mem _ List.mem_cons_self)
        simpa [AttributeValue.chars] using lineFeed_not_mem_escapeAttribute hs
    | expression e => exact e.lineFeed_not_mem_chars
  simp [Attribute.chars, hname, hvalue]

theorem lineFeed_not_mem_attributesChars {as : List Attribute}
    (h : ∀ p ∈ as.flatMap Attribute.parts, p.OnOneLine) : '\n' ∉ attributesChars as := by
  intro hmem
  obtain ⟨a, ha, hmem⟩ := List.mem_flatMap.mp hmem
  have ha' : ∀ p ∈ a.parts, p.OnOneLine := fun p hp =>
    h p (List.mem_flatMap.mpr ⟨a, ha, hp⟩)
  exact Attribute.lineFeed_not_mem_chars ha' hmem

theorem Inline.lineFeed_not_mem_chars {i : Inline} (h : ∀ p ∈ i.parts, p.OnOneLine) :
    '\n' ∉ i.chars := by
  cases i with
  | text s => exact lineFeed_not_mem_escapeText (h (.text s) List.mem_cons_self)
  | copyrightSign => decide
  | expression e => exact e.lineFeed_not_mem_chars

theorem lineFeed_not_mem_inlineChars {content : List Inline}
    (h : ∀ p ∈ content.flatMap Inline.parts, p.OnOneLine) : '\n' ∉ inlineChars content := by
  intro hmem
  obtain ⟨i, hi, hmem⟩ := List.mem_flatMap.mp hmem
  have hi' : ∀ p ∈ i.parts, p.OnOneLine := fun p hp =>
    h p (List.mem_flatMap.mpr ⟨i, hi, hp⟩)
  exact Inline.lineFeed_not_mem_chars hi' hmem

/-- Neither the tags of an element nor the spaces before them break the line. -/
theorem lineFeed_not_mem_tags {tag : String} {attributes : List Attribute}
    (h : ∀ p ∈ tagParts tag attributes, p.OnOneLine) (level : ℕ) :
    '\n' ∉ indentation level ∧ '\n' ∉ openTag tag attributes ∧
      '\n' ∉ voidTag tag attributes ∧ '\n' ∉ closeTag tag := by
  have htag : '\n' ∉ tag.toList := h (.name tag) List.mem_cons_self
  have has := lineFeed_not_mem_attributesChars fun p hp => h p (List.mem_cons_of_mem _ hp)
  simp [indentation, openTag, voidTag, closeTag, htag, has]

mutual

/-- An element whose parts stay on one line has no line feed but between its lines. -/
theorem Element.lineFeed_not_mem_lines (level : ℕ) (e : Element)
    (h : ∀ p ∈ e.parts, p.OnOneLine) : ∀ l ∈ e.lines level, '\n' ∉ l := by
  cases e with
  | line content =>
      have hcontent := lineFeed_not_mem_inlineChars h
      simp [Element.lines, indentation, hcontent]
  | inline tag attributes content =>
      obtain ⟨htag, hcontent⟩ := List.forall_mem_append.mp h
      have htags := lineFeed_not_mem_tags htag level
      have hcontent := lineFeed_not_mem_inlineChars hcontent
      simp [Element.lines, htags, hcontent]
  | void tag attributes =>
      have htags := lineFeed_not_mem_tags h level
      simp [Element.lines, htags]
  | block tag attributes children =>
      obtain ⟨htag, hchildren⟩ := List.forall_mem_append.mp h
      have htags := lineFeed_not_mem_tags htag level
      have hchildren := lineFeed_not_mem_linesOfAll (level + 1) children hchildren
      simp only [Element.lines, List.mem_cons, List.mem_append, List.cons_append]
      rintro l (rfl | hl | rfl | hl)
      · simp [htags]
      · exact hchildren l hl
      · simp [htags]
      · exact absurd hl List.not_mem_nil

/-- The same for elements one after the other. -/
theorem lineFeed_not_mem_linesOfAll (level : ℕ) (es : List Element)
    (h : ∀ p ∈ partsOfAll es, p.OnOneLine) : ∀ l ∈ linesOfAll level es, '\n' ∉ l := by
  cases es with
  | nil => exact List.forall_mem_nil _
  | cons e es =>
      obtain ⟨hfirst, hrest⟩ := List.forall_mem_append.mp h
      exact List.forall_mem_append.mpr
        ⟨e.lineFeed_not_mem_lines level hfirst, lineFeed_not_mem_linesOfAll level es hrest⟩

end

mutual

/-- Below the root, every line begins with a space. -/
theorem Element.head?_of_mem_lines (level : ℕ) (e : Element) :
    ∀ l ∈ e.lines (level + 1), l.head? = some ' ' := by
  have hspace (cs : List Char) : (indentation (level + 1) ++ cs).head? = some ' ' := rfl
  cases e with
  | line content => simp [Element.lines, hspace]
  | inline tag attributes content => simp [Element.lines, hspace]
  | void tag attributes => simp [Element.lines, hspace]
  | block tag attributes children =>
      have hchildren := head?_of_mem_linesOfAll (level + 1) children
      simp only [Element.lines, List.mem_cons, List.mem_append, List.cons_append]
      rintro l (rfl | hl | rfl | hl)
      · exact hspace _
      · exact hchildren l hl
      · exact hspace _
      · exact absurd hl List.not_mem_nil

/-- The same for elements one after the other. -/
theorem head?_of_mem_linesOfAll (level : ℕ) (es : List Element) :
    ∀ l ∈ linesOfAll (level + 1) es, l.head? = some ' ' := by
  cases es with
  | nil => exact List.forall_mem_nil _
  | cons e es =>
      exact List.forall_mem_append.mpr
        ⟨e.head?_of_mem_lines level, head?_of_mem_linesOfAll level es⟩

end

end Markup
end DesignPages
