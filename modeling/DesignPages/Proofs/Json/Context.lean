import DesignPages.Proofs.Json.Ensures
import DesignPages.Proofs.Json.Scan
import Mathlib.Data.List.TakeWhile

/-!
# Values inside other texts

What is found at the front of a text does not depend on what stands behind it, as long as a number
is not prolonged, nor on how many steps are allowed, as long as they are enough.  A value that was
scanned in a text of its own is therefore found again wherever this text stands inside another one.
-/

namespace DesignPages
namespace Json
namespace Scan

variable {cs rest tail : List Char}

/-! ## Words and numbers -/

theorem skipSpace_append_right {c : Char} (h : skipSpace cs = c :: rest) (tail : List Char) :
    skipSpace (cs ++ tail) = c :: (rest ++ tail) := by
  induction cs with
  | nil => contradiction
  | cons d cs ih =>
      by_cases hd : isSpace d = true
      · rw [skipSpace, List.dropWhile_cons_of_pos hd] at h
        rw [List.cons_append, skipSpace, List.dropWhile_cons_of_pos hd]
        exact ih h
      · rw [skipSpace, List.dropWhile_cons_of_neg hd] at h
        rw [List.cons_append, skipSpace, List.dropWhile_cons_of_neg hd, ← List.cons_append, h,
          List.cons_append]

theorem isSpace_of_skipSpace_eq_nil (h : skipSpace cs = []) : ∀ c ∈ cs, isSpace c = true :=
  List.dropWhile_eq_nil_iff.mp h

theorem word_append_right {es : List Char} (h : word es cs = .ok rest) (tail : List Char) :
    word es (cs ++ tail) = .ok (rest ++ tail) := by
  induction es generalizing cs with
  | nil =>
      obtain rfl : cs = rest := Except.ok.inj h
      rfl
  | cons e es ih =>
      cases cs with
      | nil => contradiction
      | cons c cs =>
          rw [word] at h
          split_ifs at h with hc
          rw [List.cons_append, word, if_pos hc]
          exact ih h

/-- What was scanned as digits are all digits up to the rest. -/
theorem exists_of_digits_eq_ok {ds : List Char} (h : digits cs = .ok (ds, rest)) :
    cs = ds ++ rest ∧ ds ≠ [] ∧ (∀ c ∈ ds, c.isDigit = true) ∧
      ∀ c ∈ rest.head?, c.isDigit = false := by
  unfold digits at h
  cases htake : cs.takeWhile Char.isDigit with
  | nil =>
      rw [htake] at h
      contradiction
  | cons d more =>
      rw [htake, Except.ok.injEq, Prod.mk.injEq] at h
      obtain ⟨rfl, rfl⟩ := h
      refine ⟨?_, List.cons_ne_nil _ _, ?_, ?_⟩
      · rw [← htake, List.takeWhile_append_dropWhile]
      · intro c hc
        rw [← htake] at hc
        exact List.mem_takeWhile_imp hc
      · intro c hc
        have hhead := List.head?_dropWhile_not Char.isDigit cs
        rw [Option.mem_def.mp hc] at hhead
        simpa using hhead

theorem head?_append_right {P : Char → Prop} (h : ∀ c ∈ rest.head?, P c)
    (htail : ∀ c ∈ tail.head?, P c) : ∀ c ∈ (rest ++ tail).head?, P c := by
  cases rest with
  | nil => exact htail
  | cons d rest => exact h

theorem digits_append_right {ds : List Char} (h : digits cs = .ok (ds, rest))
    (htail : Delimited tail) : digits (cs ++ tail) = .ok (ds, rest ++ tail) := by
  obtain ⟨rfl, hne, hds, hrest⟩ := exists_of_digits_eq_ok h
  rw [List.append_assoc]
  exact digits_append hne hds (head?_append_right hrest fun c hc => (htail c hc).1)

theorem wholePart_append_right {ds : List Char} (h : wholePart cs = .ok (ds, rest))
    (htail : Delimited tail) : wholePart (cs ++ tail) = .ok (ds, rest ++ tail) := by
  obtain ⟨⟨es, more⟩, hdigits, h⟩ := exists_of_bind_eq_ok h
  dsimp only at h
  split_ifs at h with hzero
  obtain ⟨rfl, rfl⟩ := Prod.mk.inj (Except.ok.inj h)
  rw [wholePart, digits_append_right hdigits htail]
  exact if_neg hzero

theorem fractionPart_append_right {ds : List Char} (h : fractionPart cs = .ok (ds, rest))
    (htail : Delimited tail) : fractionPart (cs ++ tail) = .ok (ds, rest ++ tail) := by
  cases cs with
  | nil =>
      obtain ⟨rfl, rfl⟩ := Prod.mk.inj (Except.ok.inj h)
      have hnone (c : Char) (hc : c ∈ ([] : List Char)) : c.isDigit = true :=
        absurd hc List.not_mem_nil
      exact fractionPart_append hnone fun c hc => ⟨(htail c hc).1, (htail c hc).2.1⟩
  | cons c cs =>
      by_cases hc : c = '.'
      · subst hc
        have hdigits : digits cs = .ok (ds, rest) := h
        exact digits_append_right hdigits htail
      · have hnone (more : List Char) : fractionPart (c :: more) = .ok ([], c :: more) := by
          unfold fractionPart
          split
          · next heq => exact absurd (List.cons.inj heq).1 hc
          · rfl
        rw [hnone, Except.ok.injEq, Prod.mk.injEq] at h
        obtain ⟨rfl, rfl⟩ := h
        exact hnone _

/-- The digits of an exponent, with its sign. -/
theorem signedDigits_append_right {negative : Bool} {ds : List Char} {e : Option (Bool × List Char)}
    (h : (digits ds).map (fun found => (some (negative, found.1), found.2)) = .ok (e, rest))
    (htail : Delimited tail) :
    (digits (ds ++ tail)).map (fun found => (some (negative, found.1), found.2)) =
      .ok (e, rest ++ tail) := by
  obtain ⟨⟨es, more⟩, hdigits, heq⟩ := exists_of_map_eq_ok h
  obtain ⟨rfl, rfl⟩ := Prod.mk.inj heq
  rw [digits_append_right hdigits htail]
  rfl

theorem exponentPart_append_right {e : Option (Bool × List Char)}
    (h : exponentPart cs = .ok (e, rest)) (htail : Delimited tail) :
    exponentPart (cs ++ tail) = .ok (e, rest ++ tail) := by
  cases cs with
  | nil =>
      obtain ⟨rfl, rfl⟩ := Prod.mk.inj (Except.ok.inj h)
      cases tail with
      | nil => rfl
      | cons c tail =>
          obtain ⟨-, -, hlower, hupper⟩ := htail c rfl
          simp [exponentPart, hlower, hupper]
  | cons c cs =>
      by_cases hc : c = 'e' ∨ c = 'E'
      · cases cs with
        | nil => simp [exponentPart, hc, digits, digitMissing, Except.map] at h
        | cons d ds =>
            by_cases hminus : d = '-'
            · simp only [hminus, exponentPart, if_pos hc, List.cons_append] at h ⊢
              exact signedDigits_append_right h htail
            · by_cases hplus : d = '+'
              · simp only [hplus, exponentPart, if_pos hc, List.cons_append] at h ⊢
                exact signedDigits_append_right h htail
              · have hplain (more : List Char) : exponentPart (c :: d :: more) =
                    (digits (d :: more)).map fun found => (some (false, found.1), found.2) := by
                  simp [exponentPart, hc, hminus, hplus]
                rw [hplain] at h
                rw [List.cons_append, List.cons_append, hplain]
                have happend := signedDigits_append_right h htail
                exact happend
      · have hnone (more : List Char) : exponentPart (c :: more) = .ok (none, c :: more) := by
          simp [exponentPart, hc]
        rw [hnone] at h
        obtain ⟨rfl, rfl⟩ := Prod.mk.inj (Except.ok.inj h)
        exact hnone _

theorem unsigned_append_right {negative : Bool} {l : Literal}
    (h : unsigned negative cs = .ok (l, rest)) (htail : Delimited tail) :
    unsigned negative (cs ++ tail) = .ok (l, rest ++ tail) := by
  obtain ⟨⟨whole, behindWhole⟩, hwhole, h⟩ := exists_of_bind_eq_ok h
  obtain ⟨⟨fraction, behindFraction⟩, hfraction, h⟩ := exists_of_bind_eq_ok h
  obtain ⟨⟨exponent, behindExponent⟩, hexponent, h⟩ := exists_of_bind_eq_ok h
  obtain ⟨rfl, rfl⟩ := Prod.mk.inj (Except.ok.inj h)
  have hwhole := wholePart_append_right hwhole htail
  have hfraction := fractionPart_append_right hfraction htail
  have hexponent := exponentPart_append_right hexponent htail
  simp only [unsigned, hwhole, hfraction, hexponent, bind, Except.bind]
  rfl

theorem number_append_right {l : Literal} (h : number cs = .ok (l, rest))
    (htail : Delimited tail) : number (cs ++ tail) = .ok (l, rest ++ tail) := by
  cases cs with
  | nil => contradiction
  | cons c cs =>
      rw [List.cons_append]
      by_cases hc : c = '-'
      · subst hc
        have hunsigned : unsigned true cs = .ok (l, rest) := h
        exact unsigned_append_right hunsigned htail
      · have hunsigned (more : List Char) : number (c :: more) = unsigned false (c :: more) := by
          unfold number
          split
          · next heq => exact absurd (List.cons.inj heq).1 hc
          · rfl
        rw [hunsigned] at h ⊢
        have happend := unsigned_append_right h htail
        exact happend

/-! ## Strings -/

theorem hexQuad_append_right {n : ℕ} (h : hexQuad cs = .ok (n, rest)) (tail : List Char) :
    hexQuad (cs ++ tail) = .ok (n, rest ++ tail) := by
  match cs with
  | a :: b :: c :: d :: more =>
      cases hquad : hexQuad? a b c d with
      | none => simp [hexQuad, hquad] at h
      | some m =>
          have hok (more : List Char) : hexQuad (a :: b :: c :: d :: more) = .ok (m, more) := by
            simp only [hexQuad, hquad]
          rw [hok] at h
          obtain ⟨rfl, rfl⟩ := Prod.mk.inj (Except.ok.inj h)
          exact hok _
  | [] | [_] | [_, _] | [_, _, _] => simp [hexQuad] at h

theorem escape_append_right {n : ℕ} (h : escape cs = .ok (n, rest)) (tail : List Char) :
    escape (cs ++ tail) = .ok (n, rest ++ tail) := by
  cases cs with
  | nil => contradiction
  | cons c cs =>
      rw [List.cons_append]
      by_cases hc : c = 'u'
      · subst hc
        have hquad : hexQuad cs = .ok (n, rest) := h
        exact hexQuad_append_right hquad tail
      · cases he : shortEscape? c with
        | none => simp [escape, he] at h
        | some e =>
            have hok (more : List Char) : escape (c :: more) = .ok (e.toNat, more) := by
              simp [escape, he]
            rw [hok] at h
            obtain ⟨rfl, rfl⟩ := Prod.mk.inj (Except.ok.inj h)
            exact hok _

/-- What was scanned of a string is scanned again with `tail` behind the text. -/
def TextOutcome.Prolonged (tail : List Char) (o o' : TextOutcome) : Prop :=
  ∀ s rest, o = .ok (s, rest) → o' = .ok (s, rest ++ tail)

namespace TextOutcome.Prolonged

variable {o o' : TextOutcome}

theorem cons (h : Prolonged tail o o') (c : Char) : Prolonged tail (o.cons c) (o'.cons c) := by
  intro s rest hread
  obtain ⟨⟨t, more⟩, ho, heq⟩ := exists_of_map_eq_ok hread
  obtain ⟨rfl, rfl⟩ := Prod.mk.inj heq
  rw [h t more ho]
  rfl

theorem unpaired (h : Prolonged tail o o') : Prolonged tail o.unpaired o'.unpaired := by
  intro s rest hread
  cases ho : o with
  | error why =>
      rw [ho] at hread
      contradiction
  | ok found =>
      obtain ⟨t, more⟩ := found
      rw [ho] at hread
      obtain ⟨rfl, rfl⟩ := Prod.mk.inj (Except.ok.inj hread)
      rw [h t more ho]
      rfl

end TextOutcome.Prolonged

/-- Scans on behind the first half of a surrogate pair. -/
def afterHigh (fuel unit : ℕ) (rest : List Char) : TextOutcome :=
  match rest with
  | [] => .error (.truncated, .truncated)
  | ['\\'] => .error (.truncated, .truncated)
  | '\\' :: 'u' :: more =>
    match hexQuad more with
    | .error why => .error (why, why)
    | .ok (low, after) =>
      if isLowSurrogate low then (stringBody fuel after).cons (surrogatePair unit low)
      else (stringBody fuel rest).unpaired
  | _ => (stringBody fuel rest).unpaired

theorem stringBody_high {unit : ℕ} (h : escape cs = .ok (unit, rest))
    (hhigh : isHighSurrogate unit = true) (fuel : ℕ) :
    stringBody (fuel + 1) ('\\' :: cs) = afterHigh fuel unit rest := by
  simp only [stringBody, h, hhigh, if_true, afterHigh]
  rfl

theorem stringBody_not_high {unit : ℕ} (h : escape cs = .ok (unit, rest))
    (hhigh : isHighSurrogate unit = false) (fuel : ℕ) :
    stringBody (fuel + 1) ('\\' :: cs) =
      if isLowSurrogate unit then (stringBody fuel rest).unpaired
      else (stringBody fuel rest).cons (Char.ofNat unit) := by
  simp [stringBody, h, hhigh]

/-- Without a second escape the first half stays alone. -/
theorem afterHigh_alone {d : Char} {ds : List Char}
    (h : d = '\\' → ∃ e es, ds = e :: es ∧ e ≠ 'u') (fuel unit : ℕ) :
    afterHigh fuel unit (d :: ds) = (stringBody fuel (d :: ds)).unpaired := by
  unfold afterHigh
  split
  · next heq => contradiction
  · next heq =>
      obtain ⟨hd, rfl⟩ := List.cons.inj heq
      obtain ⟨e, es, hes, -⟩ := h hd
      contradiction
  · next heq =>
      obtain ⟨hd, rfl⟩ := List.cons.inj heq
      obtain ⟨e, es, hes, he⟩ := h hd
      exact absurd (List.cons.inj hes).1.symm he
  · rfl

theorem afterHigh_prolonged {fuel fuel' : ℕ}
    (h : ∀ cs, TextOutcome.Prolonged tail (stringBody fuel cs) (stringBody fuel' (cs ++ tail)))
    (unit : ℕ) (rest : List Char) :
    TextOutcome.Prolonged tail (afterHigh fuel unit rest) (afterHigh fuel' unit (rest ++ tail)) := by
  have halone {d : Char} {ds : List Char} (hd : d = '\\' → ∃ e es, ds = e :: es ∧ e ≠ 'u') :
      TextOutcome.Prolonged tail (afterHigh fuel unit (d :: ds))
        (afterHigh fuel' unit (d :: ds ++ tail)) := by
    rw [afterHigh_alone hd, List.cons_append, afterHigh_alone]
    · exact (h (d :: ds)).unpaired
    · intro hslash
      obtain ⟨e, es, rfl, he⟩ := hd hslash
      exact ⟨e, es ++ tail, rfl, he⟩
  match rest with
  | [] => exact fun s rest h => by contradiction
  | [d] =>
      by_cases hd : d = '\\'
      · subst hd
        exact fun s rest h => by contradiction
      · exact halone fun hslash => absurd hslash hd
  | d :: e :: es =>
      by_cases hpair : d = '\\' ∧ e = 'u'
      · obtain ⟨rfl, rfl⟩ := hpair
        intro s rest hread
        cases hquad : hexQuad es with
        | error why =>
            simp only [afterHigh, hquad] at hread
            contradiction
        | ok found =>
            obtain ⟨low, after⟩ := found
            simp only [afterHigh, hquad] at hread
            simp only [List.cons_append, afterHigh, hexQuad_append_right hquad tail]
            split_ifs at hread ⊢
            · exact (h after).cons _ s rest hread
            · exact (h ('\\' :: 'u' :: es)).unpaired s rest hread
      · exact halone fun hslash => ⟨e, es, rfl, fun hu => hpair ⟨hslash, hu⟩⟩

/-- A string ends at the same quote, whatever stands behind it. -/
theorem stringBody_prolonged (tail : List Char) {fuel fuel' : ℕ} (hfuel : fuel ≤ fuel')
    (cs : List Char) :
    TextOutcome.Prolonged tail (stringBody fuel cs) (stringBody fuel' (cs ++ tail)) := by
  induction fuel generalizing fuel' cs with
  | zero => exact fun s rest h => by contradiction
  | succ fuel ih =>
      obtain ⟨fuel', rfl⟩ : ∃ k, fuel' = k + 1 := ⟨fuel' - 1, by omega⟩
      have hbody (cs : List Char) := ih (show fuel ≤ fuel' by omega) cs
      cases cs with
      | nil => exact fun s rest h => by contradiction
      | cons c cs =>
          rw [List.cons_append]
          by_cases hslash : c = '\\'
          · subst hslash
            cases hescape : escape cs with
            | error why =>
                intro s rest h
                simp [stringBody, hescape] at h
            | ok found =>
                obtain ⟨unit, more⟩ := found
                have hescape' := escape_append_right hescape tail
                cases hhigh : isHighSurrogate unit with
                | true =>
                    rw [stringBody_high hescape hhigh, stringBody_high hescape' hhigh]
                    exact afterHigh_prolonged hbody unit more
                | false =>
                    rw [stringBody_not_high hescape hhigh, stringBody_not_high hescape' hhigh]
                    split_ifs
                    · exact (hbody more).unpaired
                    · exact (hbody more).cons _
          · simp only [stringBody, if_neg hslash]
            split_ifs
            · intro s rest h
              obtain ⟨rfl, rfl⟩ := Prod.mk.inj (Except.ok.inj h)
              rfl
            · exact fun s rest h => by contradiction
            · exact (hbody cs).cons c

/-! ## Outlines -/

section Outlines

variable {o : Outline}

theorem wordOutline_append_right {es : List Char} {v : Outline} {broken : Break → Outline}
    (h : wordOutline es v broken cs = (o, some rest)) (tail : List Char) :
    wordOutline es v broken (cs ++ tail) = (o, some (rest ++ tail)) := by
  unfold wordOutline at h ⊢
  cases hword : word es cs with
  | error why =>
      rw [hword] at h
      exact absurd (Prod.mk.inj h).2 (Option.some_ne_none _).symm
  | ok more =>
      rw [hword, Prod.mk.injEq, Option.some_inj] at h
      rw [word_append_right hword tail, h.1, h.2]

theorem numberOutline_append_right (h : numberOutline cs = (o, some rest))
    (htail : Delimited tail) : numberOutline (cs ++ tail) = (o, some (rest ++ tail)) := by
  unfold numberOutline at h ⊢
  cases hnumber : number cs with
  | error why =>
      rw [hnumber] at h
      exact absurd (Prod.mk.inj h).2 (Option.some_ne_none _).symm
  | ok found =>
      obtain ⟨l, more⟩ := found
      rw [hnumber, Prod.mk.injEq, Option.some_inj] at h
      rw [number_append_right hnumber htail]
      dsimp only at h ⊢
      rw [h.1, h.2]

theorem stringOutline_append_right {fuel fuel' : ℕ}
    (h : stringOutline fuel cs = (o, some rest)) (hfuel : fuel ≤ fuel') (tail : List Char) :
    stringOutline fuel' (cs ++ tail) = (o, some (rest ++ tail)) := by
  unfold stringOutline at h ⊢
  cases hbody : stringBody fuel cs with
  | error why =>
      rw [hbody] at h
      exact absurd (Prod.mk.inj h).2 (Option.some_ne_none _).symm
  | ok found =>
      obtain ⟨s, more⟩ := found
      rw [hbody, Prod.mk.injEq, Option.some_inj] at h
      rw [stringBody_prolonged tail hfuel cs s more hbody]
      dsimp only at h ⊢
      rw [h.1, h.2]

end Outlines

/-- With `fuel` steps, what is scanned to its end is scanned again when `tail` stands behind the text
and more steps are allowed. -/
structure KeepsIn (tail : List Char) (fuel : ℕ) : Prop where
  value : ∀ {fuel' cs o rest}, fuel ≤ fuel' → Scan.value fuel cs = (o, some rest) →
    Scan.value fuel' (cs ++ tail) = (o, some (rest ++ tail))
  items : ∀ {fuel' first cs os stop rest}, fuel ≤ fuel' →
    Scan.items fuel first cs = (os, stop, some rest) →
    Scan.items fuel' first (cs ++ tail) = (os, stop, some (rest ++ tail))
  itemsFrom : ∀ {fuel' cs os stop rest}, fuel ≤ fuel' →
    Scan.itemsFrom fuel cs = (os, stop, some rest) →
    Scan.itemsFrom fuel' (cs ++ tail) = (os, stop, some (rest ++ tail))
  members : ∀ {fuel' first cs ms stop rest}, fuel ≤ fuel' →
    Scan.members fuel first cs = (ms, stop, some rest) →
    Scan.members fuel' first (cs ++ tail) = (ms, stop, some (rest ++ tail))
  membersFrom : ∀ {fuel' cs ms stop rest}, fuel ≤ fuel' →
    Scan.membersFrom fuel cs = (ms, stop, some rest) →
    Scan.membersFrom fuel' (cs ++ tail) = (ms, stop, some (rest ++ tail))

theorem keepsIn_zero (tail : List Char) : KeepsIn tail 0 where
  value _ h := by simp [value] at h
  items _ h := by simp [items] at h
  itemsFrom _ h := by simp [itemsFrom] at h
  members _ h := by simp [members] at h
  membersFrom _ h := by simp [membersFrom] at h

section Step

variable {fuel fuel' : ℕ} {o : Outline} {os : List Outline} {ms : List (Key × Outline)} {stop : Stop}
  {first : Bool}

theorem value_step (ih : KeepsIn tail fuel) (htail : Delimited tail) (hfuel : fuel ≤ fuel')
    (h : value (fuel + 1) cs = (o, some rest)) :
    value (fuel' + 1) (cs ++ tail) = (o, some (rest ++ tail)) := by
  rw [value] at h ⊢
  cases hskip : skipSpace cs with
  | nil => simp [hskip] at h
  | cons c more =>
      rw [hskip] at h
      rw [skipSpace_append_right hskip]
      dsimp only at h ⊢
      split_ifs at h ⊢ with hitems hmembers
      · obtain ⟨rfl, hrest⟩ := Prod.mk.inj h
        rw [ih.items hfuel (Prod.ext rfl (Prod.ext rfl hrest))]
      · obtain ⟨rfl, hrest⟩ := Prod.mk.inj h
        rw [ih.members hfuel (Prod.ext rfl (Prod.ext rfl hrest))]
      · exact stringOutline_append_right h hfuel tail
      · have hword := wordOutline_append_right h tail
        exact hword
      · have hword := wordOutline_append_right h tail
        exact hword
      · have hword := wordOutline_append_right h tail
        exact hword
      · have hnumber := numberOutline_append_right h htail
        exact hnumber
      · simp at h

theorem items_step (ih : KeepsIn tail fuel) (hfuel : fuel ≤ fuel')
    (h : items (fuel + 1) first cs = (os, stop, some rest)) :
    items (fuel' + 1) first (cs ++ tail) = (os, stop, some (rest ++ tail)) := by
  rw [items] at h ⊢
  cases hskip : skipSpace cs with
  | nil => simp [hskip] at h
  | cons c more =>
      rw [hskip] at h
      rw [skipSpace_append_right hskip]
      dsimp only at h ⊢
      split_ifs at h ⊢ with hclose hfirst hcomma
      · simp_all
      · have hfrom := ih.itemsFrom hfuel h
        exact hfrom
      · cases hbehind : skipSpace more with
        | nil => simp [hbehind] at h
        | cons d behind =>
            rw [hbehind] at h
            rw [skipSpace_append_right hbehind]
            dsimp only at h ⊢
            split_ifs at h ⊢
            · simp at h
            · have hfrom := ih.itemsFrom hfuel h
              exact hfrom
      · simp at h

theorem itemsFrom_step (ih : KeepsIn tail fuel) (hfuel : fuel ≤ fuel')
    (h : itemsFrom (fuel + 1) cs = (os, stop, some rest)) :
    itemsFrom (fuel' + 1) (cs ++ tail) = (os, stop, some (rest ++ tail)) := by
  rw [itemsFrom] at h ⊢
  rcases hv : value fuel cs with ⟨v, _ | more⟩
  · simp [hv] at h
  · rcases hvs : items fuel false more with ⟨vs, last, left⟩
    simp only [hv, hvs, Prod.mk.injEq] at h
    obtain ⟨rfl, rfl, rfl⟩ := h
    simp only [ih.value hfuel hv, ih.items hfuel hvs]

theorem members_step (ih : KeepsIn tail fuel) (hfuel : fuel ≤ fuel')
    (h : members (fuel + 1) first cs = (ms, stop, some rest)) :
    members (fuel' + 1) first (cs ++ tail) = (ms, stop, some (rest ++ tail)) := by
  rw [members] at h ⊢
  cases hskip : skipSpace cs with
  | nil => simp [hskip] at h
  | cons c more =>
      rw [hskip] at h
      rw [skipSpace_append_right hskip]
      dsimp only at h ⊢
      split_ifs at h ⊢ with hclose hfirst hcomma
      · simp_all
      · have hfrom := ih.membersFrom hfuel h
        exact hfrom
      · cases hbehind : skipSpace more with
        | nil => simp [hbehind] at h
        | cons d behind =>
            rw [hbehind] at h
            rw [skipSpace_append_right hbehind]
            dsimp only at h ⊢
            split_ifs at h ⊢
            · simp at h
            · have hfrom := ih.membersFrom hfuel h
              exact hfrom
      · simp at h

theorem membersFrom_step (ih : KeepsIn tail fuel) (hfuel : fuel ≤ fuel')
    (h : membersFrom (fuel + 1) cs = (ms, stop, some rest)) :
    membersFrom (fuel' + 1) (cs ++ tail) = (ms, stop, some (rest ++ tail)) := by
  cases cs with
  | nil => simp [membersFrom] at h
  | cons c cs =>
      rw [List.cons_append]
      rw [membersFrom] at h ⊢
      split_ifs at h ⊢ with hquote
      · cases hkey : stringBody fuel cs with
        | error why => simp [hkey] at h
        | ok found =>
            obtain ⟨s, more⟩ := found
            rw [hkey] at h
            rw [stringBody_prolonged tail hfuel cs s more hkey]
            dsimp only at h ⊢
            cases hskip : skipSpace more with
            | nil => simp [hskip] at h
            | cons d behind =>
                rw [hskip] at h
                rw [skipSpace_append_right hskip]
                dsimp only at h ⊢
                split_ifs at h ⊢ with hcolon
                · rcases hv : value fuel behind with ⟨v, _ | after⟩
                  · simp [hv] at h
                  · rcases hvs : members fuel false after with ⟨vs, last, left⟩
                    simp only [hv, hvs, Prod.mk.injEq] at h
                    obtain ⟨rfl, rfl, rfl⟩ := h
                    simp only [ih.value hfuel hv, ih.members hfuel hvs]
                · simp at h
      · simp at h

end Step

theorem KeepsIn.succ {fuel : ℕ} (ih : KeepsIn tail fuel) (htail : Delimited tail) :
    KeepsIn tail (fuel + 1) := by
  have hstep {fuel' : ℕ} (h : fuel + 1 ≤ fuel') : ∃ k, fuel' = k + 1 ∧ fuel ≤ k :=
    ⟨fuel' - 1, by omega, by omega⟩
  refine ⟨fun h hscan => ?_, fun h hscan => ?_, fun h hscan => ?_, fun h hscan => ?_,
    fun h hscan => ?_⟩ <;> obtain ⟨k, rfl, hk⟩ := hstep h
  · exact value_step ih htail hk hscan
  · exact items_step ih hk hscan
  · exact itemsFrom_step ih hk hscan
  · exact members_step ih hk hscan
  · exact membersFrom_step ih hk hscan

theorem keepsIn (htail : Delimited tail) : ∀ fuel : ℕ, KeepsIn tail fuel
  | 0 => keepsIn_zero tail
  | fuel + 1 => (keepsIn htail fuel).succ htail

/-- A value is found again in front of anything that does not prolong a number. -/
theorem value_append_right {fuel fuel' : ℕ} {o : Outline} (h : value fuel cs = (o, some rest))
    (hfuel : fuel ≤ fuel') (htail : Delimited tail) :
    value fuel' (cs ++ tail) = (o, some (rest ++ tail)) :=
  (keepsIn htail fuel).value hfuel h

/-- A value that is put under a key, with nothing else, is the value of the only member. -/
theorem value_singleton {fuel fuel' : ℕ} {k : String} {o : Outline} {blank : List Char}
    (h : value fuel cs = (o, some rest)) (hrest : ∀ c ∈ rest, isSpace c = true)
    (hblank : ∀ c ∈ blank, isSpace c = true) (hfuel : fuel ≤ fuel' + 1)
    (hk : k.toList.length ≤ fuel') :
    value (fuel' + 4)
        ('\x7b' :: (stringLiteralChars k.toList ++ ':' :: (blank ++ (cs ++ ['\x7d'])))) =
      (.obj [(.text k, o)] .closed, some []) := by
  have hvalue : value (fuel' + 1) (cs ++ ['\x7d']) = (o, some (rest ++ ['\x7d'])) :=
    value_append_right h hfuel (delimited_of_punctuation (.inr (.inr rfl)) [])
  have hmembers : members (fuel' + 1) false (rest ++ ['\x7d']) = ([], .closed, some []) := by
    rw [members, skipSpace_append hrest]
    rfl
  have hfrom := membersFrom_eq (Nat.lt_succ_of_le hk) hblank hvalue hmembers
  rw [value, skipSpace_cons (by decide)]
  simp only [if_true, members]
  simp only [stringLiteralChars, List.append_assoc, List.cons_append, List.nil_append] at hfrom ⊢
  rw [skipSpace_cons (by decide)]
  simp [hfrom]

end Scan
end Json
end DesignPages
