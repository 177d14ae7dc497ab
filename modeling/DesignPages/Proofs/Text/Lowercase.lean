import DesignPages.Text.Lowercase
import Mathlib.Data.List.Infix

/-!
# Lower case in context

The lower-case form of a text does not depend on the case of its ASCII letters.  What stands around
the text only decides about the form of its sigmas.  So a word without a sigma that occurs in the
lower-case form of a text still occurs there when the text is continued in both directions.
-/

namespace DesignPages
namespace Text

/-! ## The case of ASCII letters -/

/-- The capital ASCII letters in their order. -/
def capital (n : ℕ) : Char :=
  Char.ofNat (65 + n)

theorem exists_capital_or_toLower_eq (c : Char) : (∃ n < 26, c = capital n) ∨ c.toLower = c := by
  by_cases h : c.val ≥ 'A'.val ∧ c.val ≤ 'Z'.val
  · left
    have hlower : 65 ≤ c.toNat := UInt32.le_iff_toNat_le.mp h.1
    have hupper : c.toNat ≤ 90 := UInt32.le_iff_toNat_le.mp h.2
    refine ⟨c.toNat - 65, by omega, ?_⟩
    rw [capital, Nat.add_sub_cancel' hlower, Char.ofNat_toNat]
  · right
    exact dif_neg h

/-- What holds of a capital and its small form holds of every character and its small form, if it
holds of a character and itself. -/
theorem toLower_induction {p : Char → Char → Prop} (hsame : ∀ c, p c c)
    (hcapital : ∀ n < 26, p (capital n).toLower (capital n)) (c : Char) : p c.toLower c := by
  rcases exists_capital_or_toLower_eq c with ⟨n, hn, rfl⟩ | hc
  · exact hcapital n hn
  · rw [hc]
    exact hsame c

theorem inRanges_cased_toLower (c : Char) :
    inRanges casedRanges c.toLower = inRanges casedRanges c :=
  toLower_induction (p := fun d c => inRanges casedRanges d = inRanges casedRanges c)
    (fun _ => rfl) (by decide +kernel) c

theorem inRanges_caseIgnorable_toLower (c : Char) :
    inRanges caseIgnorableRanges c.toLower = inRanges caseIgnorableRanges c :=
  toLower_induction
    (p := fun d c => inRanges caseIgnorableRanges d = inRanges caseIgnorableRanges c)
    (fun _ => rfl) (by decide +kernel) c

theorem lowercaseChar_toLower (c : Char) : lowercaseChar c.toLower = lowercaseChar c :=
  toLower_induction (p := fun d c => lowercaseChar d = lowercaseChar c)
    (fun _ => rfl) (by decide +kernel) c

theorem toLower_eq_sigma_iff (c : Char) : c.toLower = 'Σ' ↔ c = 'Σ' :=
  toLower_induction (p := fun d c => d = 'Σ' ↔ c = 'Σ') (fun _ => Iff.rfl) (by decide +kernel) c

theorem meetsCased_map_toLower (cs : List Char) :
    meetsCased (cs.map Char.toLower) = meetsCased cs := by
  have hignored : inRanges caseIgnorableRanges ∘ Char.toLower = inRanges caseIgnorableRanges :=
    funext inRanges_caseIgnorable_toLower
  rw [meetsCased, meetsCased, List.dropWhile_map, hignored]
  cases cs.dropWhile (inRanges caseIgnorableRanges) with
  | nil => rfl
  | cons c _ => exact inRanges_cased_toLower c

theorem lowercaseAfter_map_toLower (before cs : List Char) :
    lowercaseAfter (before.map Char.toLower) (cs.map Char.toLower) = lowercaseAfter before cs := by
  induction cs generalizing before with
  | nil => rfl
  | cons c cs ih =>
      have hrest := ih (c :: before)
      rw [List.map_cons] at hrest
      simp only [List.map_cons, lowercaseAfter, hrest, toLower_eq_sigma_iff,
        meetsCased_map_toLower, lowercaseChar_toLower]

/-- The lower-case form does not depend on the case of ASCII letters. -/
theorem lowercaseChars_map_toLower (cs : List Char) :
    lowercaseChars (cs.map Char.toLower) = lowercaseChars cs :=
  lowercaseAfter_map_toLower [] cs

/-! ## What stands around a text -/

/-- The form of a small sigma inside a word, for both of its small forms. -/
def medial (c : Char) : Char :=
  if c = 'ς' then 'σ' else c

/-- The lower-case form of a character, with every sigma as it stands inside a word. -/
def plainForm (c : Char) : List Char :=
  if c = 'Σ' then ['σ'] else (lowercaseChar c).map medial

/-- Up to the form of the sigmas, every character is mapped on its own. -/
theorem map_medial_lowercaseAfter (before cs : List Char) :
    (lowercaseAfter before cs).map medial = cs.flatMap plainForm := by
  induction cs generalizing before with
  | nil => rfl
  | cons c cs ih =>
      rw [lowercaseAfter, List.map_append, ih, List.flatMap_cons]
      congr 1
      by_cases hsigma : c = 'Σ'
      · rw [if_pos hsigma, plainForm, if_pos hsigma]
        split <;> rfl
      · rw [if_neg hsigma, plainForm, if_neg hsigma]

/-- There is no small sigma in the word. -/
def LacksSigma (word : List Char) : Prop :=
  'σ' ∉ word ∧ 'ς' ∉ word

theorem LacksSigma.map_medial {word : List Char} (h : LacksSigma word) :
    word.map medial = word := by
  refine (List.map_congr_left ?_).trans (List.map_id word)
  intro c hc
  exact if_neg fun hfinal : c = 'ς' => h.2 (hfinal ▸ hc)

theorem LacksSigma.eq_of_map_medial_eq {word cs : List Char} (h : LacksSigma word)
    (hcs : cs.map medial = word) : cs = word := by
  rw [← hcs]
  refine (List.map_id cs).symm.trans (List.map_congr_left ?_)
  intro c hc
  have hne : c ≠ 'ς' := by
    rintro rfl
    exact h.1 (hcs ▸ List.mem_map_of_mem hc)
  exact (if_neg hne).symm

theorem LacksSigma.isInfix_map_medial_iff {word cs : List Char} (h : LacksSigma word) :
    word <:+: cs.map medial ↔ word <:+: cs := by
  constructor
  · rintro ⟨front, back, hcs⟩
    obtain ⟨start, behind, rfl, hstart, -⟩ := List.map_eq_append_iff.mp hcs.symm
    obtain ⟨before, middle, rfl, -, hmiddle⟩ := List.map_eq_append_iff.mp hstart
    rw [h.eq_of_map_medial_eq hmiddle]
    exact ⟨before, behind, rfl⟩
  · intro hword
    rw [← h.map_medial]
    exact hword.map medial

/-- A word without a sigma occurs in the lower-case form of a text exactly if it occurs in the text
whose characters are mapped one by one. -/
theorem LacksSigma.isInfix_lowercaseChars_iff {word : List Char} (h : LacksSigma word)
    (cs : List Char) : word <:+: lowercaseChars cs ↔ word <:+: cs.flatMap plainForm := by
  rw [← h.isInfix_map_medial_iff, lowercaseChars, map_medial_lowercaseAfter]

/-- A word without a sigma still occurs when the text is continued. -/
theorem LacksSigma.isInfix_lowercaseChars_append {word cs : List Char} (h : LacksSigma word)
    (hword : word <:+: lowercaseChars cs) (front back : List Char) :
    word <:+: lowercaseChars (front ++ cs ++ back) := by
  rw [h.isInfix_lowercaseChars_iff] at hword ⊢
  rw [List.flatMap_append, List.flatMap_append]
  exact hword.trans (List.infix_append _ _ _)

end Text
end DesignPages
