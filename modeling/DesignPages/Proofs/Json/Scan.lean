import DesignPages.Json.Printer
import DesignPages.Json.Scan
import DesignPages.Proofs.Json.Literal
import DesignPages.Proofs.Text.Run

/-!
# Scanning printed values

Scanning a printed value gives its outline and stops right behind it.  The only thing that matters
about what stands behind is that it does not prolong a number.
-/

namespace DesignPages
namespace Json
namespace Scan

/-! ## Strings -/

theorem hexValue?_hexDigitLower : ∀ n < 16, Text.hexValue? (Text.hexDigitLower n) = some n := by
  decide

theorem hexQuad_hexLower {n : ℕ} (h : n < 0x10000) (rest : List Char) :
    hexQuad (Text.hexLower 4 n ++ rest) = .ok (n, rest) := by
  have hdigit (k : ℕ) := hexValue?_hexDigitLower (k % 16) (Nat.mod_lt k (by decide))
  have hsum : ((n / 16 / 16 / 16 % 16 * 16 + n / 16 / 16 % 16) * 16 + n / 16 % 16) * 16 + n % 16 =
      n := by
    omega
  have hquad : hexQuad? (Text.hexDigitLower (n / 16 / 16 / 16 % 16))
      (Text.hexDigitLower (n / 16 / 16 % 16)) (Text.hexDigitLower (n / 16 % 16))
      (Text.hexDigitLower (n % 16)) = some n := by
    simp only [hexQuad?, hdigit, Option.bind_eq_bind, Option.bind_some, Option.pure_def, hsum]
  simp only [Text.hexLower, List.nil_append, List.cons_append, hexQuad, hquad]

theorem surrogate_of_char (c : Char) :
    isHighSurrogate c.toNat = false ∧ isLowSurrogate c.toNat = false := by
  have hvalid := c.valid
  simp only [UInt32.isValidChar, Nat.isValidChar] at hvalid
  have hval : c.toNat = c.val.toNat := rfl
  constructor
  · simp only [isHighSurrogate, Bool.and_eq_false_iff, decide_eq_false_iff_not]
    omega
  · simp only [isLowSurrogate, Bool.and_eq_false_iff, decide_eq_false_iff_not]
    omega

/-- An escape is read as the character that it stands for. -/
theorem stringBody_of_escape {cs tail : List Char} {c : Char}
    (h : escape cs = .ok (c.toNat, tail)) (fuel : ℕ) :
    stringBody (fuel + 1) ('\\' :: cs) = (stringBody fuel tail).cons c := by
  obtain ⟨hhigh, hlow⟩ := surrogate_of_char c
  simp [stringBody, h, hhigh, hlow]

theorem stringBody_escapeChar (c : Char) (fuel : ℕ) (tail : List Char) :
    stringBody (fuel + 1) (escapeChar c ++ tail) = (stringBody fuel tail).cons c := by
  unfold escapeChar
  split_ifs with hquote hslash h1 h2 h3 h4 h5 hcontrol
  iterate 7
    subst c
    exact stringBody_of_escape rfl fuel
  · refine stringBody_of_escape ?_ fuel
    exact hexQuad_hexLower (by omega) tail
  · simp [stringBody, hquote, hslash, hcontrol]

theorem stringBody_literal (cs : List Char) (rest : List Char) {fuel : ℕ} (h : cs.length < fuel) :
    stringBody fuel (cs.flatMap escapeChar ++ '"' :: rest) = .ok (some cs, rest) := by
  induction cs generalizing fuel with
  | nil =>
      obtain ⟨fuel, rfl⟩ : ∃ k, fuel = k + 1 := ⟨fuel - 1, by simp at h; omega⟩
      rfl
  | cons c cs ih =>
      rw [List.length_cons] at h
      obtain ⟨fuel, rfl⟩ : ∃ k, fuel = k + 1 := ⟨fuel - 1, by omega⟩
      rw [List.flatMap_cons, List.append_assoc, stringBody_escapeChar, ih (by omega)]
      rfl

/-! ## Numbers -/

/-- Nothing at the front of the rest of a text goes on with a number. -/
def Delimited (rest : List Char) : Prop :=
  ∀ c ∈ rest.head?, c.isDigit = false ∧ c ≠ '.' ∧ c ≠ 'e' ∧ c ≠ 'E'

theorem digits_append {ds rest : List Char} (hne : ds ≠ []) (hds : ∀ c ∈ ds, c.isDigit = true)
    (hrest : ∀ c ∈ rest.head?, c.isDigit = false) :
    digits (ds ++ rest) = .ok (ds, rest) := by
  have hstop : rest.head?.any Char.isDigit = false := by
    cases rest with
    | nil => rfl
    | cons c cs => exact hrest c rfl
  have htake := Text.takeWhile_run hds hstop
  have hdrop := Text.dropWhile_run hds hstop
  obtain ⟨d, ds, rfl⟩ := List.exists_cons_of_ne_nil hne
  simp only [digits, htake, hdrop]

variable {l : Literal} {rest : List Char}

theorem digit_ne_of_isDigit {c d : Char} (hc : c.isDigit = true) (hd : d.isDigit = false) :
    c ≠ d := by
  rintro rfl
  rw [hc] at hd
  exact absurd hd (by decide)

theorem exponentPart_append (h : l.WellFormed) (hrest : Delimited rest) :
    exponentPart (Literal.exponentText l.exponent ++ rest) = .ok (l.exponent, rest) := by
  cases he : l.exponent with
  | none =>
      cases rest with
      | nil => rfl
      | cons c cs =>
          obtain ⟨-, -, hlower, hupper⟩ := hrest c rfl
          simp [Literal.exponentText, exponentPart, hlower, hupper]
  | some e =>
      obtain ⟨negative, ds⟩ := e
      obtain ⟨hne, hds⟩ := h.exponent_digits negative ds he
      have hdigits := digits_append hne hds fun c hc => (hrest c hc).1
      cases negative <;>
        simp [Literal.exponentText, exponentPart, hdigits, Except.map]

theorem fractionPart_append {ds : List Char} (hds : ∀ c ∈ ds, c.isDigit = true)
    (hrest : ∀ c ∈ rest.head?, c.isDigit = false ∧ c ≠ '.') :
    fractionPart ((if ds = [] then [] else '.' :: ds) ++ rest) = .ok (ds, rest) := by
  by_cases hne : ds = []
  · subst hne
    cases rest with
    | nil => rfl
    | cons c cs =>
        obtain ⟨-, hpoint⟩ := hrest c rfl
        simp [fractionPart, hpoint]
  · rw [if_neg hne]
    exact digits_append hne hds fun c hc => (hrest c hc).1

theorem wholePart_append (h : l.WellFormed) (hrest : ∀ c ∈ rest.head?, c.isDigit = false) :
    wholePart (l.whole ++ rest) = .ok (l.whole, rest) := by
  have hzero : ¬(l.whole.head? = some '0' ∧ l.whole ≠ ['0']) := fun hboth =>
    hboth.2 (h.whole_zero hboth.1)
  simp only [wholePart, digits_append h.whole_ne_nil h.whole_digits hrest]
  exact if_neg hzero

/-- What may stand behind the digits after a point. -/
theorem head_exponentText (hrest : Delimited rest) (e : Option (Bool × List Char)) :
    ∀ c ∈ (Literal.exponentText e ++ rest).head?, c.isDigit = false ∧ c ≠ '.' := by
  cases e with
  | none => exact fun c hc => ⟨(hrest c hc).1, (hrest c hc).2.1⟩
  | some e =>
      intro c hc
      obtain rfl : 'e' = c := Option.some_inj.mp hc
      decide

theorem unsigned_append (h : l.WellFormed) (hrest : Delimited rest) :
    unsigned l.negative
        (l.whole ++ ((if l.fraction = [] then [] else '.' :: l.fraction) ++
          (Literal.exponentText l.exponent ++ rest))) =
      .ok (l, rest) := by
  have hexponent := head_exponentText hrest l.exponent
  have hfraction : ∀ c ∈ ((if l.fraction = [] then [] else '.' :: l.fraction) ++
      (Literal.exponentText l.exponent ++ rest)).head?, c.isDigit = false := by
    split_ifs
    · exact fun c hc => (hexponent c hc).1
    · intro c hc
      obtain rfl : '.' = c := Option.some_inj.mp hc
      decide
  simp only [unsigned, wholePart_append h hfraction,
    fractionPart_append h.fraction_digits hexponent, exponentPart_append h hrest, bind, Except.bind]
  rfl

/-- A well-formed literal is scanned as it was written. -/
theorem number_text_append (h : l.WellFormed) (hrest : Delimited rest) :
    number (l.text ++ rest) = .ok (l, rest) := by
  have hparts := unsigned_append h hrest
  simp only [Literal.text, List.append_assoc]
  cases hs : l.negative with
  | true =>
      rw [hs] at hparts
      exact hparts
  | false =>
      rw [hs] at hparts
      obtain ⟨d, ds, hwhole⟩ := List.exists_cons_of_ne_nil h.whole_ne_nil
      have hd : d.isDigit = true := h.whole_digits d (by rw [hwhole]; exact List.mem_cons_self)
      have hminus : d ≠ '-' := digit_ne_of_isDigit hd (by decide)
      rw [hwhole] at hparts ⊢
      rw [← hparts]
      simp [number, hminus]

end Scan

/-! ## Values -/

mutual

/-- A printed value can be read again: its literals keep to the grammar and are not beyond all
doubles, and its brackets stand at most `room` deep inside each other. -/
def Legible (room : ℕ) : Json → Prop
  | .num l => l.WellFormed ∧ l.number?.isSome = true
  | .arr vs => 0 < room ∧ LegibleItems (room - 1) vs
  | .obj ms => 0 < room ∧ LegibleMembers (room - 1) ms
  | _ => True

/-- Items that can be read again. -/
def LegibleItems (room : ℕ) : List Json → Prop
  | [] => True
  | v :: vs => v.Legible room ∧ LegibleItems room vs

/-- Members that can be read again. -/
def LegibleMembers (room : ℕ) : List (String × Json) → Prop
  | [] => True
  | (_, v) :: ms => v.Legible room ∧ LegibleMembers room ms

end

/-- Only white space stands between the parts of a text. -/
structure Layout.IsBlank (layout : Layout) : Prop where
  gap : ∀ level, ∀ c ∈ layout.gap level, Scan.isSpace c = true
  afterColon : ∀ c ∈ layout.afterColon, Scan.isSpace c = true

theorem Layout.compact_isBlank : Layout.compact.IsBlank :=
  ⟨fun _ _ hc => absurd hc List.not_mem_nil, fun _ hc => absurd hc List.not_mem_nil⟩

theorem Layout.pretty_isBlank : Layout.pretty.IsBlank := by
  constructor
  · intro level c hc
    rcases List.mem_cons.mp hc with rfl | hc
    · rfl
    · rw [List.eq_of_mem_replicate hc]
      rfl
  · intro c hc
    rw [List.mem_singleton.mp hc]
    rfl

namespace Scan

theorem skipSpace_append {blank : List Char} (h : ∀ c ∈ blank, isSpace c = true)
    (cs : List Char) : skipSpace (blank ++ cs) = skipSpace cs :=
  List.dropWhile_append_of_pos h

theorem skipSpace_cons {c : Char} (h : isSpace c = false) (cs : List Char) :
    skipSpace (c :: cs) = c :: cs :=
  List.dropWhile_cons_of_neg (by simp [h])

theorem value_skip {blank : List Char} (h : ∀ c ∈ blank, isSpace c = true) (fuel : ℕ)
    (cs : List Char) : value fuel (blank ++ cs) = value fuel cs := by
  cases fuel with
  | zero => simp [value]
  | succ fuel => simp only [value, skipSpace_append h]

theorem Delimited.of_blank {blank cs : List Char} (h : ∀ c ∈ blank, isSpace c = true)
    (hcs : Delimited cs) : Delimited (blank ++ cs) := by
  cases blank with
  | nil => exact hcs
  | cons b bs =>
      intro c hc
      obtain rfl : b = c := Option.some_inj.mp hc
      have hb := h b List.mem_cons_self
      simp only [isSpace, Bool.or_eq_true, beq_iff_eq] at hb
      rcases hb with ((rfl | rfl) | rfl) | rfl <;> decide

/-- Behind an item or a member stands a comma or, after white space, the closing bracket. -/
theorem delimited_of_punctuation {c : Char} (h : c = ',' ∨ c = ']' ∨ c = '\x7d')
    (cs : List Char) : Delimited (c :: cs) := by
  intro d hd
  obtain rfl : c = d := Option.some_inj.mp hd
  rcases h with rfl | rfl | rfl <;> decide

variable {layout : Layout}

theorem delimited_moreItems (hL : layout.IsBlank) (vs : List Json) (level gap : ℕ)
    (rest : List Char) :
    Delimited (moreItemsChars layout level vs ++ (layout.gap gap ++ ']' :: rest)) := by
  cases vs with
  | nil =>
      rw [moreItemsChars, List.nil_append]
      exact .of_blank (hL.gap gap) (delimited_of_punctuation (.inr (.inl rfl)) rest)
  | cons v vs =>
      simp only [moreItemsChars, List.cons_append]
      exact delimited_of_punctuation (.inl rfl) _

theorem delimited_moreMembers (hL : layout.IsBlank) (ms : List (String × Json)) (level gap : ℕ)
    (rest : List Char) :
    Delimited (moreMembersChars layout level ms ++ (layout.gap gap ++ '\x7d' :: rest)) := by
  cases ms with
  | nil =>
      rw [moreMembersChars, List.nil_append]
      exact .of_blank (hL.gap gap) (delimited_of_punctuation (.inr (.inr rfl)) rest)
  | cons m ms =>
      obtain ⟨k, v⟩ := m
      simp only [moreMembersChars, List.cons_append]
      exact delimited_of_punctuation (.inl rfl) _

theorem exists_text_eq_cons {l : Literal} (h : l.WellFormed) :
    ∃ c cs, l.text = c :: cs ∧ (c = '-' ∨ c.isDigit = true) := by
  obtain ⟨d, ds, hwhole⟩ := List.exists_cons_of_ne_nil h.whole_ne_nil
  have hd : d.isDigit = true := h.whole_digits d (by rw [hwhole]; exact List.mem_cons_self)
  cases hs : l.negative with
  | true => exact ⟨'-', _, by simp only [Literal.text, hs, if_true]; rfl, .inl rfl⟩
  | false =>
      refine ⟨d, ds ++ ((if l.fraction = [] then [] else '.' :: l.fraction) ++
        Literal.exponentText l.exponent), ?_, .inr hd⟩
      simp [Literal.text, hs, hwhole]

/-- The first character of a number begins nothing else. -/
theorem number_start {c : Char} (h : c = '-' ∨ c.isDigit = true) :
    isSpace c = false ∧ c ≠ ']' ∧ c ≠ '[' ∧ c ≠ '\x7b' ∧ c ≠ '"' ∧ c ≠ 'n' ∧ c ≠ 't' ∧ c ≠ 'f' := by
  rcases h with rfl | h
  · decide
  · have hne (d : Char) (hd : d.isDigit = false) : c ≠ d := digit_ne_of_isDigit h hd
    refine ⟨?_, hne _ (by decide), hne _ (by decide), hne _ (by decide), hne _ (by decide),
      hne _ (by decide), hne _ (by decide), hne _ (by decide)⟩
    simp [isSpace, hne ' ' (by decide), hne '\t' (by decide), hne '\n' (by decide),
      hne '\r' (by decide)]

/-- A printed value begins neither with white space nor with a closing bracket. -/
theorem exists_chars_eq_cons (layout : Layout) {room : ℕ} {v : Json} (h : v.Legible room)
    (level : ℕ) :
    ∃ c cs, chars layout level v = c :: cs ∧ isSpace c = false ∧ c ≠ ']' := by
  cases v with
  | null => exact ⟨_, _, rfl, by decide, by decide⟩
  | bool b => cases b <;> exact ⟨_, _, rfl, by decide, by decide⟩
  | num l =>
      rw [Legible] at h
      obtain ⟨c, cs, htext, hc⟩ := exists_text_eq_cons h.1
      obtain ⟨hspace, hclose, -⟩ := number_start hc
      exact ⟨c, cs, by rw [chars, htext], hspace, hclose⟩
  | str s => exact ⟨_, _, rfl, by decide, by decide⟩
  | arr vs => cases vs <;> exact ⟨_, _, rfl, by decide, by decide⟩
  | obj ms => cases ms <;> exact ⟨_, _, rfl, by decide, by decide⟩

theorem value_number {l : Literal} (h : l.WellFormed) {rest : List Char} (hrest : Delimited rest)
    (fuel : ℕ) : value (fuel + 1) (l.text ++ rest) = (.num l, some rest) := by
  obtain ⟨c, cs, htext, hc⟩ := exists_text_eq_cons h
  obtain ⟨hspace, -, h1, h2, h3, h4, h5, h6⟩ := number_start hc
  have hnumber := number_text_append h hrest
  rw [htext, List.cons_append] at hnumber ⊢
  simp only [value, skipSpace_cons hspace, h1, h2, h3, h4, h5, h6, hc, numberOutline, hnumber,
    if_true, if_false]

theorem stringOutline_literal (s : String) (rest : List Char) {fuel : ℕ}
    (h : s.toList.length < fuel) :
    stringOutline fuel (s.toList.flatMap escapeChar ++ '"' :: rest) =
      (.str (some s), some rest) := by
  simp only [stringOutline, stringBody_literal s.toList rest h, Option.map_some, String.ofList_toList]

theorem length_le_flatMap_escapeChar (cs : List Char) :
    cs.length ≤ (cs.flatMap escapeChar).length := by
  induction cs with
  | nil => exact Nat.zero_le _
  | cons c cs ih =>
      have hone : 1 ≤ (escapeChar c).length := by
        unfold escapeChar
        split_ifs <;> simp
      rw [List.flatMap_cons, List.length_append, List.length_cons]
      omega

theorem length_stringLiteralChars (cs : List Char) :
    cs.length + 2 ≤ (stringLiteralChars cs).length := by
  have h := length_le_flatMap_escapeChar cs
  simp only [stringLiteralChars, List.length_append, List.length_cons, List.length_nil]
  omega

/-- From a value on, items are scanned as one item and those that follow it. -/
theorem itemsFrom_eq {fuel : ℕ} {cs rest rest' : List Char} {o : Outline} {os : List Outline}
    {stop : Stop} (hvalue : value fuel cs = (o, some rest))
    (hitems : items fuel false rest = (os, stop, some rest')) :
    itemsFrom (fuel + 1) cs = (o :: os, stop, some rest') := by
  simp only [itemsFrom, hvalue, hitems]

/-- From a key on, members are scanned as one member and those that follow it. -/
theorem membersFrom_eq {fuel : ℕ} {cs rest rest' blank : List Char} {k : String} {o : Outline}
    {os : List (Key × Outline)} {stop : Stop} (hk : k.toList.length < fuel)
    (hblank : ∀ c ∈ blank, isSpace c = true) (hvalue : value fuel cs = (o, some rest))
    (hmembers : members fuel false rest = (os, stop, some rest')) :
    membersFrom (fuel + 1) (stringLiteralChars k.toList ++ ':' :: (blank ++ cs)) =
      ((.text k, o) :: os, stop, some rest') := by
  have hcolon : skipSpace (':' :: (blank ++ cs)) = ':' :: (blank ++ cs) :=
    skipSpace_cons (by decide) _
  have hkey := stringBody_literal k.toList (':' :: (blank ++ cs)) hk
  simp only [stringLiteralChars, List.append_assoc, List.cons_append, List.nil_append, membersFrom,
    if_true, hkey, hcolon, value_skip hblank, hvalue, hmembers, String.ofList_toList]

mutual

/-- Scanning a printed value gives its outline and what stands behind it.  Four steps for each
character are enough: a bracket or a comma pays for the steps that lead to the next value. -/
theorem value_chars (hL : layout.IsBlank) : ∀ (v : Json) (room level fuel : ℕ) (rest : List Char),
    v.Legible room → Delimited rest → 4 * (chars layout level v).length ≤ fuel →
      value fuel (chars layout level v ++ rest) = (.ofJson v, some rest)
  | v, _, level, 0, _, h, _, hfuel => by
      obtain ⟨c, cs, hcs, -⟩ := exists_chars_eq_cons layout h level
      rw [hcs, List.length_cons] at hfuel
      omega
  | .null, _, _, fuel + 1, rest, _, _, _ => by
      simp [chars, value, skipSpace, isSpace, wordOutline, word, Outline.ofJson]
  | .bool b, _, _, fuel + 1, rest, _, _, _ => by
      cases b <;> simp [chars, value, skipSpace, isSpace, wordOutline, word, Outline.ofJson]
  | .num l, _, _, fuel + 1, rest, h, hrest, _ => by
      rw [Legible] at h
      exact value_number h.1 hrest fuel
  | .str s, _, _, fuel + 1, rest, _, _, hfuel => by
      have hlength := length_stringLiteralChars s.toList
      rw [chars] at hfuel
      have houtline := stringOutline_literal s rest (by omega : s.toList.length < fuel)
      simp only [chars, stringLiteralChars, List.append_assoc, List.cons_append, List.nil_append,
        value]
      rw [skipSpace_cons (by decide)]
      simp [houtline, Outline.ofJson]
  | .arr [], _, _, fuel + 1, rest, _, _, hfuel => by
      obtain ⟨fuel, rfl⟩ : ∃ k, fuel = k + 1 := ⟨fuel - 1, by simp [chars] at hfuel; omega⟩
      simp [chars, value, items, skipSpace, isSpace, Outline.ofJson, Outline.ofItems]
  | .arr (v :: vs), room, level, fuel + 1, rest, h, _, hfuel => by
      rw [Legible, LegibleItems] at h
      obtain ⟨-, hv, hvs⟩ := h
      simp only [chars, List.length_append, List.length_cons, List.length_nil] at hfuel
      obtain ⟨fuel, rfl⟩ : ∃ k, fuel = k + 2 := ⟨fuel - 2, by omega⟩
      obtain ⟨c, cs, hcs, hspace, hclose⟩ := exists_chars_eq_cons layout hv (level + 1)
      have hvalue := value_chars hL v (room - 1) (level + 1) fuel _ hv
        (delimited_moreItems hL vs (level + 1) level rest) (by omega)
      have hitems := items_chars hL vs (room - 1) (level + 1) level fuel rest hvs (by omega)
      have hfrom := itemsFrom_eq hvalue hitems
      simp only [chars, List.append_assoc, List.cons_append, List.nil_append, value]
      rw [skipSpace_cons (by decide)]
      simp only [if_true, items, skipSpace_append (hL.gap (level + 1))]
      rw [hcs, List.cons_append] at hfrom ⊢
      rw [skipSpace_cons hspace]
      simp only [hclose, if_false, hfrom]
      rfl
  | .obj [], _, _, fuel + 1, rest, _, _, hfuel => by
      obtain ⟨fuel, rfl⟩ : ∃ k, fuel = k + 1 := ⟨fuel - 1, by simp [chars] at hfuel; omega⟩
      simp [chars, value, members, skipSpace, isSpace, Outline.ofJson, Outline.ofMembers]
  | .obj ((k, v) :: ms), room, level, fuel + 1, rest, h, _, hfuel => by
      rw [Legible, LegibleMembers] at h
      obtain ⟨-, hv, hms⟩ := h
      have hlength := length_stringLiteralChars k.toList
      simp only [chars, List.length_append, List.length_cons, List.length_nil] at hfuel
      obtain ⟨fuel, rfl⟩ : ∃ k, fuel = k + 2 := ⟨fuel - 2, by omega⟩
      have hvalue := value_chars hL v (room - 1) (level + 1) fuel _ hv
        (delimited_moreMembers hL ms (level + 1) level rest) (by omega)
      have hmembers := members_chars hL ms (room - 1) (level + 1) level fuel rest hms (by omega)
      have hfrom := membersFrom_eq (k := k) (by omega) hL.afterColon hvalue hmembers
      simp only [chars, List.append_assoc, List.cons_append, List.nil_append, value]
      rw [skipSpace_cons (by decide)]
      simp only [if_true, members, skipSpace_append (hL.gap (level + 1))]
      simp only [stringLiteralChars, List.append_assoc, List.cons_append, List.nil_append]
        at hfrom ⊢
      rw [skipSpace_cons (by decide)]
      simp [hfrom, Outline.ofJson, Outline.ofMembers]

theorem items_chars (hL : layout.IsBlank) :
    ∀ (vs : List Json) (room level gap fuel : ℕ) (rest : List Char), LegibleItems room vs →
      4 * (moreItemsChars layout level vs).length < fuel →
      items fuel false (moreItemsChars layout level vs ++ (layout.gap gap ++ ']' :: rest)) =
        (Outline.ofItems vs, .closed, some rest)
  | [], _, _, gap, fuel, rest, _, hfuel => by
      obtain ⟨fuel, rfl⟩ : ∃ k, fuel = k + 1 := ⟨fuel - 1, by omega⟩
      simp only [moreItemsChars, List.nil_append, items, skipSpace_append (hL.gap gap)]
      rw [skipSpace_cons (by decide)]
      rfl
  | v :: vs, room, level, gap, fuel, rest, h, hfuel => by
      rw [LegibleItems] at h
      obtain ⟨hv, hvs⟩ := h
      simp only [moreItemsChars, List.length_append, List.length_cons] at hfuel
      obtain ⟨fuel, rfl⟩ : ∃ k, fuel = k + 2 := ⟨fuel - 2, by omega⟩
      obtain ⟨c, cs, hcs, hspace, hclose⟩ := exists_chars_eq_cons layout hv level
      have hvalue := value_chars hL v room level fuel _ hv
        (delimited_moreItems hL vs level gap rest) (by omega)
      have hitems := items_chars hL vs room level gap fuel rest hvs (by omega)
      have hfrom := itemsFrom_eq hvalue hitems
      simp only [moreItemsChars, List.append_assoc, List.cons_append, items]
      rw [skipSpace_cons (by decide)]
      simp only [skipSpace_append (hL.gap level)]
      rw [hcs, List.cons_append] at hfrom ⊢
      rw [skipSpace_cons hspace]
      simp [hclose, hfrom, Outline.ofItems]

theorem members_chars (hL : layout.IsBlank) :
    ∀ (ms : List (String × Json)) (room level gap fuel : ℕ) (rest : List Char),
      LegibleMembers room ms → 4 * (moreMembersChars layout level ms).length < fuel →
      members fuel false (moreMembersChars layout level ms ++ (layout.gap gap ++ '\x7d' :: rest)) =
        (Outline.ofMembers ms, .closed, some rest)
  | [], _, _, gap, fuel, rest, _, hfuel => by
      obtain ⟨fuel, rfl⟩ : ∃ k, fuel = k + 1 := ⟨fuel - 1, by omega⟩
      simp only [moreMembersChars, List.nil_append, members, skipSpace_append (hL.gap gap)]
      rw [skipSpace_cons (by decide)]
      rfl
  | (k, v) :: ms, room, level, gap, fuel, rest, h, hfuel => by
      rw [LegibleMembers] at h
      obtain ⟨hv, hms⟩ := h
      have hlength := length_stringLiteralChars k.toList
      simp only [moreMembersChars, List.length_append, List.length_cons] at hfuel
      obtain ⟨fuel, rfl⟩ : ∃ k, fuel = k + 2 := ⟨fuel - 2, by omega⟩
      have hvalue := value_chars hL v room level fuel _ hv
        (delimited_moreMembers hL ms level gap rest) (by omega)
      have hmembers := members_chars hL ms room level gap fuel rest hms (by omega)
      have hfrom := membersFrom_eq (k := k) (by omega) hL.afterColon hvalue hmembers
      simp only [moreMembersChars, List.append_assoc, List.cons_append, members]
      rw [skipSpace_cons (by decide)]
      simp only [skipSpace_append (hL.gap level)]
      simp only [stringLiteralChars, List.append_assoc, List.cons_append, List.nil_append]
        at hfrom ⊢
      rw [skipSpace_cons (by decide)]
      simp [hfrom, Outline.ofMembers]

end

theorem skipSpace_blank {blank : List Char} (h : ∀ c ∈ blank, isSpace c = true) :
    skipSpace blank = [] := by
  have hnil := skipSpace_append h []
  rwa [List.append_nil] at hnil

end Scan

variable {layout : Layout} {blank : List Char}

/-- The outline of a printed value, with white space behind it. -/
theorem Outline.ofChars_chars (hL : layout.IsBlank) {room : ℕ} {v : Json} (h : v.Legible room)
    (hblank : ∀ c ∈ blank, Scan.isSpace c = true) :
    Outline.ofChars (chars layout 0 v ++ blank) = (.ofJson v, some blank) := by
  have hend : Scan.Delimited blank := by
    have hnil : Scan.Delimited (blank ++ []) := .of_blank hblank fun c hc => by simp at hc
    rwa [List.append_nil] at hnil
  refine Scan.value_chars hL v room 0 _ blank h hend ?_
  rw [List.length_append]
  omega

theorem checkRest_blank (hblank : ∀ c ∈ blank, Scan.isSpace c = true) :
    checkRest (some blank) = .ok () :=
  if_pos (Scan.skipSpace_blank hblank)

end Json
end DesignPages
