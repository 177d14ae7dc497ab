import DesignPages.Proofs.Component.Declaration
import DesignPages.Proofs.Markup.Escape
import Mathlib.Algebra.Group.Nat.Even
import Mathlib.Data.List.Induction

/-!
# Where string literals end

A quote is escaped if an odd number of backslashes stands right before it.  Every quote inside a string
literal is escaped, and behind what is written for a character the number of backslashes is even again,
so that the literal ends with the first quote that is not escaped.  Whatever text follows a literal is
therefore left alone by one who reads it.
-/

namespace DesignPages

theorem Text.hexLower_ne {width n : ℕ} {c : Char} (h : c ∈ hexLower width n) :
    c ≠ '"' ∧ c ≠ '\\' := by
  have hall : ∀ k < 16, hexDigitLower k ≠ '"' ∧ hexDigitLower k ≠ '\\' := by decide
  obtain ⟨k, hk, rfl⟩ := exists_of_mem_hexLower h
  exact hall k hk

namespace Json

/-! ## Backslashes -/

/-- The number of backslashes right at the end of a text. -/
def backslashes (cs : List Char) : ℕ :=
  (cs.reverse.takeWhile (· == '\\')).length

theorem backslashes_append_of_ne (cs : List Char) {c : Char} (h : c ≠ '\\') :
    backslashes (cs ++ [c]) = 0 := by
  simp [backslashes, h]

theorem backslashes_append_backslash (cs : List Char) :
    backslashes (cs ++ ['\\']) = backslashes cs + 1 := by
  simp [backslashes]

/-- A quote and a backslash are written with a backslash before them.  Nothing else is written with a
quote, or with a backslash at its end. -/
theorem escapeChar_cases (c : Char) :
    (c = '"' ∧ escapeChar c = ['\\', '"']) ∨
      '"' ∉ escapeChar c ∧
        (escapeChar c = ['\\', '\\'] ∨ ∃ front last, escapeChar c = front ++ [last] ∧ last ≠ '\\') := by
  unfold escapeChar
  split_ifs with hquote hslash h1 h2 h3 h4 h5 hcontrol
  · exact .inl ⟨hquote, rfl⟩
  · exact .inr ⟨by decide, .inl rfl⟩
  iterate 5 exact .inr ⟨by decide, .inr ⟨['\\'], _, rfl, by decide⟩⟩
  · have hdigits : '"' ∉ '\\' :: 'u' :: Text.hexLower 4 c.toNat := by
      simpa using fun h => (Text.hexLower_ne h).1 rfl
    have hlast : Text.hexDigitLower (c.toNat % 16) ∈ Text.hexLower 4 c.toNat :=
      List.mem_append_right _ List.mem_cons_self
    exact .inr
      ⟨hdigits, .inr ⟨_ :: _ :: Text.hexLower 3 _, _, rfl, (Text.hexLower_ne hlast).2⟩⟩
  · exact .inr ⟨by simpa using Ne.symm hquote, .inr ⟨[], c, rfl, hslash⟩⟩

/-- What is written for a text leaves no backslash that would escape what follows. -/
theorem even_backslashes_flatMap (cs : List Char) :
    Even (backslashes (cs.flatMap escapeChar)) := by
  induction cs using List.reverseRecOn with
  | nil => decide
  | append_singleton cs c ih =>
      rw [List.flatMap_append, List.flatMap_singleton]
      rcases escapeChar_cases c with ⟨-, hc⟩ | ⟨-, hc | ⟨front, last, hc, hlast⟩⟩
      · have hzero := backslashes_append_of_ne (cs.flatMap escapeChar ++ ['\\'])
          (show '"' ≠ '\\' by decide)
        rw [hc, ← List.singleton_append, ← List.append_assoc, hzero]
        exact Even.zero
      · rw [hc, ← List.singleton_append, ← List.append_assoc, backslashes_append_backslash,
          backslashes_append_backslash, add_assoc]
        exact ih.add even_two
      · rw [hc, ← List.append_assoc, backslashes_append_of_ne _ hlast]
        exact Even.zero

/-! ## Quotes -/

/-- A backslash that is not escaped itself stands before every quote. -/
theorem exists_of_flatMap_eq {cs front back : List Char}
    (h : cs.flatMap escapeChar = front ++ '"' :: back) :
    ∃ ds : List Char, front = ds.flatMap escapeChar ++ ['\\'] := by
  induction cs generalizing front with
  | nil => exact absurd h.symm (List.append_ne_nil_of_right_ne_nil _ (List.cons_ne_nil _ _))
  | cons c cs ih =>
      rw [List.flatMap_cons] at h
      rcases escapeChar_cases c with ⟨rfl, hc⟩ | ⟨hquote, -⟩
      · have hbackslash : '"' ∉ ['\\'] := by decide
        have hsplit : ['\\'] ++ '"' :: cs.flatMap escapeChar = front ++ '"' :: back := by
          rw [← h, hc]
          rfl
        obtain ⟨front, rfl, hbehind⟩ := Markup.exists_of_append_eq hbackslash hsplit
        cases front with
        | nil => exact ⟨[], rfl⟩
        | cons d front =>
            obtain ⟨rfl, hrest⟩ := List.cons.inj hbehind
            obtain ⟨ds, rfl⟩ := ih hrest
            exact ⟨'"' :: ds, by simp [hc]⟩
      · obtain ⟨front, rfl, hrest⟩ := Markup.exists_of_append_eq hquote h
        obtain ⟨ds, rfl⟩ := ih hrest
        exact ⟨c :: ds, by simp⟩

/-- The text ends with the first of its quotes that is not escaped. -/
def EndsAtQuote (cs : List Char) : Prop :=
  ['"'] <:+ cs ∧ ∀ front back, cs = front ++ '"' :: back → (Even (backslashes front) ↔ back = [])

theorem endsAtQuote_flatMap (cs : List Char) : EndsAtQuote (cs.flatMap escapeChar ++ ['"']) := by
  refine ⟨List.suffix_append _ _, fun front back h => ?_⟩
  rcases List.eq_nil_or_concat back with rfl | ⟨back, last, rfl⟩
  · have hfront : cs.flatMap escapeChar = front := List.append_cancel_right h
    rw [← hfront]
    exact iff_of_true (even_backslashes_flatMap cs) rfl
  · have hinside : cs.flatMap escapeChar = front ++ '"' :: back := by
      rw [List.concat_eq_append, ← List.cons_append, ← List.append_assoc] at h
      exact (List.append_inj' h rfl).1
    obtain ⟨ds, rfl⟩ := exists_of_flatMap_eq hinside
    rw [backslashes_append_backslash, Nat.even_add_one]
    exact iff_of_false (not_not_intro (even_backslashes_flatMap ds)) (by simp)

/-- A string literal begins with a quote and ends with the first quote behind it that is not escaped.
It holds no controls, and it reads as the text that it denotes, whatever follows it. -/
theorem stringLiteral_ends (s : String) :
    (∃ cs, (stringLiteral s).toList = '"' :: cs ∧ EndsAtQuote cs) ∧
      (∀ c ∈ (stringLiteral s).toList, ¬c.toNat < 0x20) ∧
      ∀ rest, Script.literal? ((stringLiteral s).toList ++ rest) = some (s.toList, rest) := by
  rw [stringLiteral, String.toList_ofList]
  refine ⟨⟨_, rfl, endsAtQuote_flatMap s.toList⟩, ?_, ?_⟩
  · exact fun _ hc => stringLiteralChars_not_control hc
  · exact Script.literal?_append s.toList

/-- A text that ends with a backslash and a quote does not run into the next default. -/
theorem stringLiteral_ends_of_quote :
    '\\' ∈ (stringLiteral "a\\\"").toList ∧ ¬ '\\'.toNat < 0x20 ∧
      Script.literal? ((stringLiteral "a\\\"").toList ++ ", b = \"\"".toList) =
        some ("a\\\"".toList, ", b = \"\"".toList) := by
  obtain ⟨-, hcontrols, hread⟩ := stringLiteral_ends "a\\\""
  have hmem : '\\' ∈ (stringLiteral "a\\\"").toList := by decide
  exact ⟨hmem, hcontrols '\\' hmem, hread _⟩

end Json
end DesignPages
