import DesignPages.Proofs.Text.Run
import DesignPages.Text.Blank
import Mathlib.Data.List.DropRight

/-!
# Trimmed texts

Trimming leaves a text with no blank at either end, and it leaves nothing only of a text that is blank
altogether.  A text that has no blank at either end stays as it is, and blanks around a text make no
difference.  So what is left of a text is the one part of it with no blank at either end around which
there are only blanks.
-/

namespace DesignPages
namespace Text

/-- There is no blank at either end of the text. -/
structure IsTrimmed (cs : List Char) : Prop where
  head : cs.head?.any isBlank = false
  last : cs.getLast?.any isBlank = false

theorem trimEnd_eq_rdropWhile (cs : List Char) : trimEnd cs = cs.rdropWhile isBlank := rfl

theorem trimChars_subset (cs : List Char) : trimChars cs ⊆ cs := fun _ hc =>
  (List.dropWhile_sublist _).subset ((List.rdropWhile_prefix isBlank _).subset hc)

theorem trimChars_isTrimmed (cs : List Char) : IsTrimmed (trimChars cs) where
  head := by
    have hhead := head?_dropWhile_any isBlank cs
    obtain ⟨rest, hrest⟩ := List.rdropWhile_prefix isBlank (trimStart cs)
    rw [trimChars, trimEnd_eq_rdropWhile]
    cases hcs : (trimStart cs).rdropWhile isBlank with
    | nil => rfl
    | cons c cs' =>
        rw [hcs] at hrest
        rw [← trimStart, ← hrest] at hhead
        exact hhead
  last := by
    rw [trimChars, trimEnd, List.getLast?_reverse]
    exact head?_dropWhile_any isBlank _

theorem trimChars_of_isTrimmed {cs : List Char} (h : IsTrimmed cs) : trimChars cs = cs := by
  have hstart : trimStart cs = cs := by
    cases cs with
    | nil => rfl
    | cons c cs => exact List.dropWhile_cons_of_neg (Bool.eq_false_iff.mp h.head)
  rw [trimChars, hstart, trimEnd_eq_rdropWhile, List.rdropWhile_eq_self_iff]
  intro hne hblank
  have hlast := h.last
  rw [List.getLast?_eq_some_getLast hne, Option.any_some, hblank] at hlast
  contradiction

theorem trimChars_eq_nil_iff {cs : List Char} :
    trimChars cs = [] ↔ ∀ c ∈ cs, isBlank c = true := by
  rw [trimChars, trimEnd_eq_rdropWhile, List.rdropWhile_eq_nil_iff]
  constructor
  · intro hstart c hc
    rw [← List.takeWhile_append_dropWhile (p := isBlank) (l := cs), List.mem_append] at hc
    rcases hc with hc | hc
    · exact List.mem_takeWhile_imp hc
    · exact hstart c hc
  · exact fun h c hc => h c ((List.dropWhile_sublist _).subset hc)

/-! ## Blanks around a text -/

theorem trimChars_append_left {front : List Char} (h : ∀ c ∈ front, isBlank c = true)
    (cs : List Char) : trimChars (front ++ cs) = trimChars cs := by
  rw [trimChars, trimChars, trimStart, trimStart, List.dropWhile_append_of_pos h]

theorem trimEnd_append_right {back : List Char} (h : ∀ c ∈ back, isBlank c = true)
    (cs : List Char) : trimEnd (cs ++ back) = trimEnd cs := by
  have hreverse : ∀ c ∈ back.reverse, isBlank c = true := fun c hc => h c (List.mem_reverse.mp hc)
  rw [trimEnd, trimEnd, List.reverse_append, List.dropWhile_append_of_pos hreverse]

theorem trimChars_append_right {back : List Char} (h : ∀ c ∈ back, isBlank c = true)
    (cs : List Char) : trimChars (cs ++ back) = trimChars cs := by
  rw [trimChars, trimChars, trimStart, trimStart, List.dropWhile_append]
  split_ifs with hcs
  · have hback : back.dropWhile isBlank = [] := List.dropWhile_eq_nil_iff.mpr h
    rw [hback, List.isEmpty_iff.mp hcs]
  · exact trimEnd_append_right h _

/-- Around the core of the text there are only blanks. -/
def IsPadded (core cs : List Char) : Prop :=
  ∃ front back, cs = front ++ core ++ back ∧ (∀ c ∈ front, isBlank c = true) ∧
    ∀ c ∈ back, isBlank c = true

theorem IsPadded.trimChars_eq {core cs : List Char} (h : IsPadded core cs) :
    trimChars cs = trimChars core := by
  obtain ⟨front, back, rfl, hfront, hback⟩ := h
  rw [trimChars_append_right hback, trimChars_append_left hfront]

theorem trimChars_isPadded (cs : List Char) : IsPadded (trimChars cs) cs := by
  refine ⟨cs.takeWhile isBlank, (trimStart cs).rtakeWhile isBlank, ?_,
    fun c hc => List.mem_takeWhile_imp hc, fun c hc => List.mem_rtakeWhile_imp hc⟩
  have hend : trimChars cs ++ (trimStart cs).rtakeWhile isBlank = trimStart cs :=
    List.rdropWhile_append_rtakeWhile
  rw [List.append_assoc, hend]
  exact List.takeWhile_append_dropWhile.symm

/-- What trimming leaves of a text. -/
theorem trimChars_eq_iff {core cs : List Char} :
    trimChars cs = core ↔ IsTrimmed core ∧ IsPadded core cs := by
  constructor
  · rintro rfl
    exact ⟨trimChars_isTrimmed cs, trimChars_isPadded cs⟩
  · rintro ⟨htrimmed, hpadded⟩
    rw [hpadded.trimChars_eq, trimChars_of_isTrimmed htrimmed]

end Text
end DesignPages
