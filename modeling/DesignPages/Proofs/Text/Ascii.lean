import DesignPages.Text.Blank
import Mathlib.Data.Nat.Notation

/-!
# Visible ASCII characters

Letters and digits are ranges of codes.  They are visible, and no visible ASCII character is blank.  A
small letter stands 32 codes behind its capital, and two characters have the same small form if they
are equal or differ in this way.
-/

namespace DesignPages
namespace Text

variable {c : Char}

theorem isAlphanum_iff :
    c.isAlphanum = true ↔
      ((65 ≤ c.toNat ∧ c.toNat ≤ 90) ∨ (97 ≤ c.toNat ∧ c.toNat ≤ 122)) ∨
        (48 ≤ c.toNat ∧ c.toNat ≤ 57) := by
  change (decide (65 ≤ c.val ∧ c.val ≤ 90) || (decide (97 ≤ c.val) && decide (c.val ≤ 122)) ||
    (decide (48 ≤ c.val) && decide (c.val ≤ 57))) = true ↔ _
  simp only [Bool.or_eq_true, Bool.and_eq_true, decide_eq_true_eq, UInt32.le_iff_toNat_le]
  rfl

theorem isAlpha_iff :
    c.isAlpha = true ↔
      (65 ≤ c.toNat ∧ c.toNat ≤ 90) ∨ (97 ≤ c.toNat ∧ c.toNat ≤ 122) := by
  change (decide (65 ≤ c.val ∧ c.val ≤ 90) || (decide (97 ≤ c.val) && decide (c.val ≤ 122))) =
    true ↔ _
  simp only [Bool.or_eq_true, Bool.and_eq_true, decide_eq_true_eq, UInt32.le_iff_toNat_le]
  rfl

/-- The character is an ASCII character that shows. -/
def IsVisible (c : Char) : Prop :=
  0x20 < c.toNat ∧ c.toNat < 0x7F

instance (c : Char) : Decidable (IsVisible c) :=
  inferInstanceAs (Decidable (_ ∧ _))

theorem isVisible_of_isAlphanum (h : c.isAlphanum = true) : IsVisible c := by
  rw [isAlphanum_iff] at h
  rw [IsVisible]
  omega

theorem isVisible_of_isAlpha (h : c.isAlpha = true) : IsVisible c :=
  isVisible_of_isAlphanum (Bool.or_eq_true_iff.mpr (.inl h))

theorem IsVisible.isBlank_eq_false (h : IsVisible c) : isBlank c = false := by
  obtain ⟨hlow, hhigh⟩ := h
  simp only [isBlank, Bool.or_eq_false_iff, Bool.and_eq_false_iff, beq_eq_false_iff_ne,
    decide_eq_false_iff_not]
  omega

/-! ## The case of letters -/

/-- The characters are the same, or one is an ASCII capital and the other its small form. -/
def SameLetter (c d : Char) : Prop :=
  c = d ∨ ((65 ≤ c.toNat ∧ c.toNat ≤ 90) ∧ d.toNat = c.toNat + 32) ∨
    (65 ≤ d.toNat ∧ d.toNat ≤ 90) ∧ c.toNat = d.toNat + 32

theorem SameLetter.refl (c : Char) : SameLetter c c :=
  .inl rfl

theorem toNat_toLower (c : Char) :
    c.toLower.toNat = if 65 ≤ c.toNat ∧ c.toNat ≤ 90 then c.toNat + 32 else c.toNat := by
  by_cases h : c.val ≥ 'A'.val ∧ c.val ≤ 'Z'.val
  · have hlow : 65 ≤ c.toNat := UInt32.le_iff_toNat_le.mp h.1
    have hhigh : c.toNat ≤ 90 := UInt32.le_iff_toNat_le.mp h.2
    have hlower : c.toLower.val = c.val + 32 := congrArg Char.val (dif_pos h)
    have hsum : (c.val + 32).toNat = (c.toNat + 32) % 2 ^ 32 := UInt32.toNat_add c.val 32
    rw [if_pos ⟨hlow, hhigh⟩, Char.toNat, hlower, hsum]
    omega
  · have hlower : c.toLower = c := dif_neg h
    have hcapital : ¬(65 ≤ c.toNat ∧ c.toNat ≤ 90) := fun hc =>
      h ⟨UInt32.le_iff_toNat_le.mpr hc.1, UInt32.le_iff_toNat_le.mpr hc.2⟩
    rw [if_neg hcapital, hlower]

theorem toLower_eq_toLower_iff {c d : Char} : c.toLower = d.toLower ↔ SameLetter c d := by
  rw [SameLetter, ← Char.toNat_inj, ← Char.toNat_inj, toNat_toLower, toNat_toLower]
  split <;> split <;> omega

theorem SameLetter.isAlpha {c d : Char} (h : SameLetter c d) (hd : d.isAlpha = true) :
    c.isAlpha = true := by
  rw [isAlpha_iff] at hd ⊢
  rcases h with rfl | h
  · exact hd
  · omega

end Text
end DesignPages
