import DesignPages.Proofs.Markup.Entity
import DesignPages.Proofs.Text.Ascii
import DesignPages.Proofs.Text.Hex
import DesignPages.Style.Tokens
import Mathlib.Data.Bool.AllAny
import Mathlib.Data.List.ReduceOption
import Mathlib.Tactic.SplitIfs

/-!
# The words that classes are

A class stands for a token of a style.  Some classes hold a color or a length, which may be any numbers.
This module shows that a class is one word nevertheless: all of its characters are letters, digits and a
few marks, and none of them is blank or means anything to an attribute.

The digits in the class of a background read back as the bytes of its color.
-/

namespace DesignPages

/-! ## Characters -/

/-- The characters of classes. -/
def IsClassCharacter (c : Char) : Prop :=
  c.isAlphanum = true ∨ c ∈ ['-', '.', '#', '[', ']']

instance (c : Char) : Decidable (IsClassCharacter c) :=
  inferInstanceAs (Decidable (_ ∨ _))

namespace IsClassCharacter

variable {c : Char}

theorem isVisible (h : IsClassCharacter c) : Text.IsVisible c := by
  rcases h with halphanum | hmark
  · exact Text.isVisible_of_isAlphanum halphanum
  · have hall : ∀ c ∈ ['-', '.', '#', '[', ']'], Text.IsVisible c :=
      List.all_iff_forall_prop.mp (by decide)
    exact hall c hmark

/-- A class character stands in an attribute as it is. -/
theorem escapeAttributeChar_eq (h : IsClassCharacter c) : Markup.escapeAttributeChar c = [c] := by
  have hall : ∀ c ∈ ['&', '"', '<', '>', '\x7b', '\x7d'], ¬IsClassCharacter c :=
    List.all_iff_forall_prop.mp (by decide)
  exact Markup.escapeAttributeChar_eq_self fun hescaped => hall c hescaped h

end IsClassCharacter

/-- The text is a word that can be a class. -/
structure IsWord (name : String) : Prop where
  ne_empty : name ≠ ""
  characters : ∀ c ∈ name.toList, IsClassCharacter c

instance (name : String) : Decidable (IsWord name) :=
  decidable_of_iff (name ≠ "" ∧ name.toList.all (fun c => decide (IsClassCharacter c)) = true)
    ⟨fun h => ⟨h.1, List.all_iff_forall_prop.mp h.2⟩,
      fun h => ⟨h.ne_empty, List.all_iff_forall_prop.mpr h.characters⟩⟩

/-- A word stays a word if class characters are put behind it. -/
theorem IsWord.around {front back : String} {cs : List Char} (hfront : IsWord front)
    (hcs : ∀ c ∈ cs, IsClassCharacter c) (hback : IsWord back) :
    IsWord (front ++ String.ofList cs ++ back) where
  ne_empty := by
    intro h
    rw [String.append_assoc, String.append_eq_empty_iff] at h
    exact hfront.ne_empty h.1
  characters := by
    rw [String.toList_append, String.toList_append, String.toList_ofList]
    exact List.forall_mem_append.mpr
      ⟨List.forall_mem_append.mpr ⟨hfront.characters, hcs⟩, hback.characters⟩

theorem isClassCharacter_of_mem_toDigits {n : ℕ} {c : Char} (h : c ∈ Nat.toDigits 10 n) :
    IsClassCharacter c := by
  have hdigit := Nat.isDigit_of_mem_toDigits (by decide) (by decide) h
  left
  rw [Char.isAlphanum, hdigit, Bool.or_true]

/-! ## Colors -/

namespace Color

/-- The bytes that the hexadecimal form shows: alpha only if it is not 255. -/
def shownBytes (c : Color) : List UInt8 :=
  let (r, g, b, a) := c.toBytes
  [r, g, b] ++ if a = 255 then [] else [a]

/-- The bytes of the channels that hexadecimal digits stand for.  Without digits of its own alpha is
255. -/
def bytesOfHex? (digits : List Char) : Option (UInt8 × UInt8 × UInt8 × UInt8) :=
  match Text.hexBytes? digits with
  | some [r, g, b] => some (r, g, b, 255)
  | some [r, g, b, a] => some (r, g, b, a)
  | _ => none

theorem hexChars_eq (c : Color) :
    c.hexChars = '#' :: c.shownBytes.flatMap Text.hexByteUpper := by
  unfold hexChars shownBytes
  by_cases halpha : c.toBytes.2.2.2 = 255
  · simp [halpha]
  · simp [halpha]

theorem length_shownBytes (c : Color) :
    c.shownBytes.length = if c.toBytes.2.2.2 = 255 then 3 else 4 := by
  unfold shownBytes
  by_cases halpha : c.toBytes.2.2.2 = 255
  · simp [halpha]
  · simp [halpha]

/-- The hexadecimal digits of a color stand for its bytes. -/
theorem bytesOfHex?_digits (c : Color) :
    bytesOfHex? (c.shownBytes.flatMap Text.hexByteUpper) = some c.toBytes := by
  rw [bytesOfHex?, Text.hexBytes?_flatMap, shownBytes]
  obtain ⟨r, g, b, a⟩ := c.toBytes
  by_cases halpha : a = 255
  · simp [halpha]
  · simp [halpha]

theorem channelByte_ofByte (x : UInt8) : channelByte (x.toFloat32 / 255) = x := by
  have hall : ∀ n < 256, channelByte ((UInt8.ofNat n).toFloat32 / 255) = UInt8.ofNat n := by
    decide +kernel
  have hx := hall x.toNat x.toNat_lt
  rwa [UInt8.ofNat_toNat] at hx

/-- The bytes that a color is made of are its bytes again, and alpha is 255. -/
theorem toBytes_ofBytes (r g b : UInt8) : (ofBytes r g b).toBytes = (r, g, b, 255) := by
  have hone : channelByte 1 = 255 := by decide
  simp only [toBytes, ofBytes, channelByte_ofByte, hone]

/-- A color that is made of bytes is written with the digits of these bytes. -/
theorem hexChars_ofBytes (r g b : UInt8) :
    (ofBytes r g b).hexChars = '#' :: [r, g, b].flatMap Text.hexByteUpper := by
  rw [hexChars_eq, shownBytes, toBytes_ofBytes]
  rfl

theorem mem_upperDigits_of_mem_digits {c : Color} {d : Char}
    (h : d ∈ c.shownBytes.flatMap Text.hexByteUpper) : d ∈ Text.upperDigits := by
  obtain ⟨b, -, hd⟩ := List.mem_flatMap.mp h
  exact Text.mem_upperDigits_of_mem_hexByteUpper hd

theorem isClassCharacter_of_mem_hexChars {c : Color} {d : Char} (h : d ∈ c.hexChars) :
    IsClassCharacter d := by
  have hall : ∀ d ∈ Text.upperDigits, IsClassCharacter d :=
    List.all_iff_forall_prop.mp (by decide)
  rw [hexChars_eq, List.mem_cons] at h
  rcases h with rfl | h
  · decide
  · exact hall d (mem_upperDigits_of_mem_digits h)

end Color

/-! ## Lengths -/

namespace Pixels

variable {c : Char}

theorem isClassCharacter_of_mem_positional {d : Number.Decimal} (h : c ∈ positional d) :
    IsClassCharacter c := by
  have hzeros {n : ℕ} (h : c ∈ List.replicate n '0') : IsClassCharacter c := by
    rw [List.eq_of_mem_replicate h]
    decide
  simp only [positional] at h
  split_ifs at h
  · rcases List.mem_append.mp h with h | h
    · exact isClassCharacter_of_mem_toDigits h
    · exact hzeros h
  · rcases List.mem_append.mp h with h | h
    · exact isClassCharacter_of_mem_toDigits (List.mem_of_mem_take h)
    · rcases List.mem_cons.mp h with rfl | h
      · decide
      · exact isClassCharacter_of_mem_toDigits (List.mem_of_mem_drop h)
  · rw [List.cons_append, List.cons_append, List.mem_cons, List.mem_cons, List.mem_append] at h
    rcases h with rfl | rfl | h | h
    · decide
    · decide
    · exact hzeros h
    · exact isClassCharacter_of_mem_toDigits h

theorem isClassCharacter_of_mem_whole {significand : ℕ} {exponent : Int} {cs : List Char}
    (hwhole : whole? significand exponent = some cs) (h : c ∈ cs) : IsClassCharacter c := by
  simp only [whole?] at hwhole
  split_ifs at hwhole
  · obtain rfl := Option.some.inj hwhole
    exact isClassCharacter_of_mem_toDigits h
  · obtain rfl := Option.some.inj hwhole
    exact isClassCharacter_of_mem_toDigits h

/-- Every length has class characters only, also one that is no number. -/
theorem isClassCharacter_of_mem_chars {x : Float} (h : c ∈ chars x) : IsClassCharacter c := by
  unfold chars at h
  split at h
  · have hall : ∀ c ∈ "NaN".toList, IsClassCharacter c := List.all_iff_forall_prop.mp (by decide)
    exact hall c h
  · next negative _ =>
      have hall : ∀ c ∈ (if negative then "-inf" else "inf").toList, IsClassCharacter c := by
        cases negative <;> exact List.all_iff_forall_prop.mp (by decide)
      exact hall c h
  · next negative significand exponent _ =>
      rcases List.mem_append.mp h with h | h
      · have hall : ∀ c ∈ (if negative then ['-'] else []), IsClassCharacter c := by
          cases negative <;> exact List.all_iff_forall_prop.mp (by decide)
        exact hall c h
      · cases hwhole : whole? significand exponent with
        | none =>
            rw [hwhole] at h
            exact isClassCharacter_of_mem_positional h
        | some cs =>
            rw [hwhole] at h
            exact isClassCharacter_of_mem_whole hwhole h

end Pixels

/-! ## Styles -/

namespace StyleTokens

/-- The classes come in a fixed order, one for each token that is there. -/
theorem classes_eq_reduceOption (s : StyleTokens) :
    s.classes =
      [s.background.map backgroundClass, if s.elevated then some "shadow-lg" else Option.none,
        s.border.map borderClass, s.fontSize.map FontSize.className,
        s.fontWeight.map FontWeight.className].reduceOption := by
  have helevated : (if s.elevated then ["shadow-lg"] else []) =
      [if s.elevated then some "shadow-lg" else Option.none].reduceOption := by
    cases s.elevated <;> rfl
  simp only [classes, helevated, ← List.reduceOption_singleton, ← List.reduceOption_append]
  rfl

theorem backgroundClass_eq (c : Color) :
    backgroundClass c =
      "bg-[#" ++ String.ofList (c.shownBytes.flatMap Text.hexByteUpper) ++ "]" := by
  rw [← String.toList_inj, backgroundClass, Color.toHex, c.hexChars_eq]
  simp

theorem mem_classes_iff {s : StyleTokens} {name : String} :
    name ∈ s.classes ↔
      (∃ c, s.background = some c ∧ backgroundClass c = name) ∨
        (s.elevated = true ∧ name = "shadow-lg") ∨
        (∃ px, s.border = some px ∧ borderClass px = name) ∨
        (∃ size, s.fontSize = some size ∧ size.className = name) ∨
        ∃ weight, s.fontWeight = some weight ∧ weight.className = name := by
  simp [classes]

/-- Every class is a word, whatever color and length it holds. -/
theorem isWord_of_mem_classes {s : StyleTokens} {name : String} (h : name ∈ s.classes) :
    IsWord name := by
  rcases mem_classes_iff.mp h with
    ⟨color, -, rfl⟩ | ⟨-, rfl⟩ | ⟨px, -, rfl⟩ | ⟨size, -, rfl⟩ | ⟨weight, -, rfl⟩
  · exact .around (by decide) (fun _ => Color.isClassCharacter_of_mem_hexChars) (by decide)
  · decide
  · exact .around (by decide) (fun _ => Pixels.isClassCharacter_of_mem_chars) (by decide)
  · cases size <;> decide
  · cases weight <;> decide

end StyleTokens
end DesignPages
