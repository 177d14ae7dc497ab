import Mathlib.Data.List.TakeWhile

/-!
# Runs of characters

A run of characters with a property ends where a character follows that does not have it, or where the
text ends.  Whoever takes such characters from the front of a text therefore gets exactly the run.

Texts that are joined by a separator hold no characters but their own and those of the separator.
-/

namespace DesignPages
namespace Text

variable {p : Char → Bool} {cs run rest : List Char}

theorem takeWhile_run (hrun : ∀ c ∈ run, p c = true) (hrest : rest.head?.any p = false) :
    (run ++ rest).takeWhile p = run := by
  rw [List.takeWhile_append_of_pos hrun]
  cases rest with
  | nil => exact List.append_nil run
  | cons c rest =>
      have hc : ¬p c = true := by simpa using hrest
      rw [List.takeWhile_cons_of_neg hc, List.append_nil]

theorem dropWhile_run (hrun : ∀ c ∈ run, p c = true) (hrest : rest.head?.any p = false) :
    (run ++ rest).dropWhile p = rest := by
  rw [List.dropWhile_append_of_pos hrun]
  cases rest with
  | nil => rfl
  | cons c rest =>
      have hc : ¬p c = true := by simpa using hrest
      exact List.dropWhile_cons_of_neg hc

/-- What is left behind a run does not go on with it. -/
theorem head?_dropWhile_any (p : Char → Bool) (cs : List Char) :
    (cs.dropWhile p).head?.any p = false := by
  have hhead := List.head?_dropWhile_not p cs
  cases hfirst : (cs.dropWhile p).head? with
  | none => rfl
  | some c =>
      rw [hfirst] at hhead
      exact hhead

/-- The run in front of a text is the only way to split the text into characters with the property and
a rest that does not go on with them. -/
theorem takeWhile_eq_iff :
    cs.takeWhile p = run ↔
      ∃ rest, cs = run ++ rest ∧ (∀ c ∈ run, p c = true) ∧ rest.head?.any p = false := by
  constructor
  · rintro rfl
    exact ⟨cs.dropWhile p, List.takeWhile_append_dropWhile.symm,
      fun c hc => List.mem_takeWhile_imp hc, head?_dropWhile_any p cs⟩
  · rintro ⟨rest, rfl, hrun, hrest⟩
    exact takeWhile_run hrun hrest

/-! ## Joined texts -/

theorem forall_mem_intercalate {P : Char → Prop} {separator : List Char} {ls : List (List Char)}
    (hseparator : ∀ c ∈ separator, P c) (h : ∀ l ∈ ls, ∀ c ∈ l, P c) :
    ∀ c ∈ separator.intercalate ls, P c := by
  induction ls with
  | nil => exact fun _ hc => absurd hc List.not_mem_nil
  | cons l ls ih =>
      obtain ⟨hl, hrest⟩ := List.forall_mem_cons.mp h
      by_cases hls : ls = []
      · rwa [hls, List.intercalate_singleton]
      · rw [List.intercalate_cons_of_ne_nil hls]
        exact List.forall_mem_append.mpr ⟨List.forall_mem_append.mpr ⟨hl, hseparator⟩, ih hrest⟩

theorem not_mem_intercalate {c : Char} {separator : List Char} {ls : List (List Char)}
    (hseparator : c ∉ separator) (h : ∀ l ∈ ls, c ∉ l) : c ∉ separator.intercalate ls := by
  intro hc
  have hne := forall_mem_intercalate (P := (· ≠ c)) (fun d hd => ne_of_mem_of_not_mem hd hseparator)
    (fun l hl d hd => ne_of_mem_of_not_mem hd (h l hl))
  exact hne c hc rfl

/-- Joined texts split at the separator into what the first one splits into and the others, if these
do not hold it. -/
theorem splitOn_intercalate_cons {separator : Char} {ls : List (List Char)} (l : List Char)
    (h : ∀ l' ∈ ls, separator ∉ l') :
    ([separator].intercalate (l :: ls)).splitOn separator = l.splitOn separator ++ ls := by
  by_cases hls : ls = []
  · rw [hls, List.intercalate_singleton, List.append_nil]
  · rw [List.intercalate_cons_of_ne_nil hls, List.append_assoc, List.singleton_append,
      List.splitOn_append_cons_self, List.splitOn_intercalate _ h hls]

end Text
end DesignPages
