import DesignPages.Frame.Extract
import DesignPages.Proofs.Text.Trim

/-!
# Lines of texts

The lines that are collected from a text are trimmed, not empty, and free of line breaks.  Two texts
with a line break between them have the lines of the first and then those of the second; everything
else follows from this and from the lines of a text without a break.  A text has no lines if and only
if it is blank, and the lines of a text, joined by line breaks, have themselves for lines.
-/

namespace DesignPages

/-- The lines of characters, without the blanks around them and without empty lines. -/
def keptLines (cs : List Char) : List (List Char) :=
  ((splitLines cs).map Text.trimChars).filter fun line => !line.isEmpty

theorem textLines_eq (s : String) : textLines s = (keptLines s.toList).map String.ofList := rfl

theorem splitLines_eq_splitOnP (cs : List Char) : splitLines cs = cs.splitOnP isLineBreak := by
  induction cs with
  | nil => rfl
  | cons c cs ih =>
      rw [splitLines, ih, List.splitOnP_cons_eq_if_modifyHead]
      split_ifs
      · rfl
      · cases hlines : cs.splitOnP isLineBreak with
        | nil => exact absurd hlines (List.splitOnP_ne_nil _ _)
        | cons line lines => rfl

/-- A line break ends a line and is part of none. -/
theorem keptLines_append_break {b : Char} (hb : isLineBreak b = true) (cs ds : List Char) :
    keptLines (cs ++ b :: ds) = keptLines cs ++ keptLines ds := by
  simp only [keptLines, splitLines_eq_splitOnP, List.splitOnP_append_cons cs ds hb, List.map_append,
    List.filter_append]

/-- A text without breaks is one line. -/
theorem keptLines_of_forall {cs : List Char} (h : ∀ c ∈ cs, isLineBreak c = false) :
    keptLines cs = [Text.trimChars cs].filter fun line => !line.isEmpty := by
  rw [keptLines, splitLines_eq_splitOnP, List.splitOnP_eq_singleton h, List.map_singleton]

/-! ## What lines hold -/

/-- What holds of the characters in all lines of a text holds of its characters but the breaks. -/
theorem forall_mem_splitLines_iff {P : Char → Prop} {cs : List Char} :
    (∀ l ∈ splitLines cs, ∀ c ∈ l, P c) ↔ ∀ c ∈ cs, isLineBreak c = false → P c := by
  induction cs with
  | nil => simp [splitLines]
  | cons c cs ih =>
      rw [splitLines]
      by_cases hbreak : isLineBreak c = true
      · simp [hbreak, ih]
      · cases hlines : splitLines cs with
        | nil => simp [hbreak, hlines, ← ih]
        | cons line lines =>
            rw [hlines, List.forall_mem_cons] at ih
            simp [hbreak, ← ih, and_assoc]

/-- A line as it is collected: trimmed, not empty and without a break. -/
structure IsLine (cs : List Char) : Prop where
  ne_nil : cs ≠ []
  isTrimmed : Text.IsTrimmed cs
  noBreak : ∀ c ∈ cs, isLineBreak c = false

theorem isLine_of_mem_keptLines {cs l : List Char} (h : l ∈ keptLines cs) : IsLine l := by
  obtain ⟨hmem, hne⟩ := List.mem_filter.mp h
  obtain ⟨line, hline, rfl⟩ := List.mem_map.mp hmem
  have hbreaks := forall_mem_splitLines_iff.mpr (fun c (_ : c ∈ cs) hc => hc) line hline
  exact ⟨by simpa using hne, Text.trimChars_isTrimmed line,
    fun c hc => hbreaks c (Text.trimChars_subset line hc)⟩

theorem isLine_of_mem_textLines {s t : String} (h : t ∈ textLines s) : IsLine t.toList := by
  rw [textLines_eq] at h
  obtain ⟨l, hl, rfl⟩ := List.mem_map.mp h
  rw [String.toList_ofList]
  exact isLine_of_mem_keptLines hl

theorem IsLine.keptLines_eq {l : List Char} (h : IsLine l) : keptLines l = [l] := by
  have hkept : (!l.isEmpty) = true := by simpa using h.ne_nil
  rw [keptLines_of_forall h.noBreak, Text.trimChars_of_isTrimmed h.isTrimmed,
    List.filter_singleton, hkept, cond_true]

/-- Line breaks are blank. -/
theorem isBlank_of_isLineBreak {c : Char} (h : isLineBreak c = true) : Text.isBlank c = true := by
  simp only [isLineBreak, Bool.or_eq_true, beq_iff_eq] at h
  rcases h with ((rfl | rfl) | rfl) | rfl <;> decide

/-- A text has no lines if and only if it is blank. -/
theorem keptLines_eq_nil_iff {cs : List Char} :
    keptLines cs = [] ↔ ∀ c ∈ cs, Text.isBlank c = true := by
  have hlines : keptLines cs = [] ↔ ∀ l ∈ splitLines cs, ∀ c ∈ l, Text.isBlank c = true := by
    simp [keptLines, List.filter_eq_nil_iff, Text.trimChars_eq_nil_iff]
  rw [hlines, forall_mem_splitLines_iff]
  refine forall₂_congr fun c _ => ?_
  cases hbreak : isLineBreak c with
  | true => simp [isBlank_of_isLineBreak hbreak]
  | false => simp

theorem textLines_eq_nil_iff {s : String} :
    textLines s = [] ↔ ∀ c ∈ s.toList, Text.isBlank c = true := by
  rw [textLines_eq, List.map_eq_nil_iff, keptLines_eq_nil_iff]

/-! ## Lines joined again -/

theorem keptLines_intercalate {b : Char} (hb : isLineBreak b = true) {ls : List (List Char)}
    (h : ∀ l ∈ ls, IsLine l) : keptLines ([b].intercalate ls) = ls := by
  induction ls with
  | nil => rfl
  | cons l ls ih =>
      have hl := h l List.mem_cons_self
      have hls := ih fun l' hl' => h l' (List.mem_cons_of_mem l hl')
      cases ls with
      | nil => rw [List.intercalate_singleton, hl.keptLines_eq]
      | cons l' ls =>
          rw [List.intercalate_cons_cons, List.append_assoc, List.singleton_append,
            keptLines_append_break hb, hl.keptLines_eq, hls, List.singleton_append]

/-- The lines of a text, joined by line breaks, have themselves for lines. -/
theorem textLines_intercalate {b : Char} (hb : isLineBreak b = true) (s : String) :
    textLines ((String.singleton b).intercalate (textLines s)) = textLines s := by
  have hchars : ((String.singleton b).intercalate (textLines s)).toList =
      [b].intercalate (keptLines s.toList) := by
    rw [String.toList_intercalate, textLines_eq, List.map_map]
    simp
  rw [textLines_eq, hchars, keptLines_intercalate hb fun l hl => isLine_of_mem_keptLines hl,
    ← textLines_eq]

end DesignPages
