import DesignPages.Json.StringLiteral
import Mathlib.Data.List.Basic
import Mathlib.Tactic.SplitIfs

/-!
# Characters of string literals

A string literal holds no controls, whatever the text that it denotes.  It therefore never goes beyond
the line on which it begins.
-/

namespace DesignPages

namespace Text

theorem exists_of_mem_hexLower {width n : ℕ} {c : Char} (h : c ∈ hexLower width n) :
    ∃ k < 16, c = hexDigitLower k := by
  induction width generalizing n with
  | zero => exact absurd h List.not_mem_nil
  | succ width ih =>
      rw [hexLower, List.mem_append, List.mem_singleton] at h
      rcases h with h | h
      · exact ih h
      · exact ⟨n % 16, Nat.mod_lt n (by decide), h⟩

theorem hexLower_not_control {width n : ℕ} {c : Char} (h : c ∈ hexLower width n) :
    ¬c.toNat < 0x20 := by
  have hall : ∀ k < 16, ¬(hexDigitLower k).toNat < 0x20 := by decide
  obtain ⟨k, hk, rfl⟩ := exists_of_mem_hexLower h
  exact hall k hk

end Text

namespace Json

theorem backslash_pair_not_control {c d : Char} (hc : ¬c.toNat < 0x20) (h : d ∈ ['\\', c]) :
    ¬d.toNat < 0x20 := by
  simp only [List.mem_cons, List.not_mem_nil, or_false] at h
  rcases h with rfl | rfl
  · decide
  · exact hc

/-- What stands for a character in a string literal holds no controls. -/
theorem escapeChar_not_control {c d : Char} (h : d ∈ escapeChar c) : ¬d.toNat < 0x20 := by
  unfold escapeChar at h
  split_ifs at h with _ _ _ _ _ _ _ hcontrol
  iterate 7 exact backslash_pair_not_control (by decide) h
  · simp only [List.mem_cons] at h
    rcases h with rfl | rfl | h
    · decide
    · decide
    · exact Text.hexLower_not_control h
  · rw [List.mem_singleton.mp h]
    exact hcontrol

/-- A string literal holds no controls. -/
theorem stringLiteralChars_not_control {cs : List Char} {d : Char}
    (h : d ∈ stringLiteralChars cs) :
    ¬d.toNat < 0x20 := by
  simp only [stringLiteralChars, List.cons_append, List.mem_cons, List.mem_append,
    List.mem_flatMap, List.not_mem_nil, or_false] at h
  rcases h with rfl | ⟨c, -, h⟩ | rfl
  · decide
  · exact escapeChar_not_control h
  · decide

/-- A string literal stays on its line. -/
theorem lineFeed_not_mem_stringLiteralChars (cs : List Char) :
    '\n' ∉ stringLiteralChars cs := fun h =>
  stringLiteralChars_not_control h (by decide)

end Json
end DesignPages
