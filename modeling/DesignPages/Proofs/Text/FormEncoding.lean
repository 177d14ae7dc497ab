import DesignPages.Proofs.Text.Hex
import DesignPages.Text.FormEncoding
import Mathlib.Data.Bool.AllAny
import Mathlib.Tactic.SplitIfs

/-!
# Reading form encoding

This module decodes texts in form encoding to bytes.  What is encoded decodes to the bytes of its UTF-8
form, also where it holds plus signs, percent signs or escapes itself.  The encoding writes letters,
digits and a few marks only.  None of them means anything to a query or to markup, so that an encoded
text stays one value wherever it is put.
-/

namespace DesignPages
namespace Text

/-- The bytes of the UTF-8 form of a text. -/
def utf8 (s : String) : List UInt8 :=
  s.toUTF8.data.toList

/-- The characters of form encoding. -/
def IsFormCharacter (c : Char) : Prop :=
  c.isAlphanum = true ∨ c ∈ ['*', '-', '.', '_', '+', '%']

instance (c : Char) : Decidable (IsFormCharacter c) :=
  inferInstanceAs (Decidable (_ ∨ _))

/-- The bytes that a character without a percent sign before it stands for: a plus sign is a space, and
every other character is itself. -/
def formBytes (c : Char) : List UInt8 :=
  if c = '+' then [0x20] else String.utf8EncodeChar c

/-- Decodes a text in form encoding.  A percent sign begins a byte that is written with two digits. -/
def formDecode? : List Char → Option (List UInt8)
  | [] => some []
  | '%' :: high :: low :: cs => do
    let b ← hexByte? high low
    let bs ← formDecode? cs
    return b :: bs
  | c :: cs => if c = '%' then none else (formDecode? cs).map (formBytes c ++ ·)

theorem utf8_injective : Function.Injective utf8 := by
  intro s t h
  rw [← String.toByteArray_inj]
  exact ByteArray.ext (Array.toList_inj.mp h)

/-! ## Bytes -/

/-- A byte that is left as it is stands for itself. -/
theorem isFormSafe_cases {b : UInt8} (h : isFormSafe b = true) :
    IsFormCharacter (Char.ofNat b.toNat) ∧ Char.ofNat b.toNat ≠ '%' ∧
      formBytes (Char.ofNat b.toNat) = [b] := by
  have hall : ∀ n < 256, isFormSafe (UInt8.ofNat n) = true →
      IsFormCharacter (Char.ofNat n) ∧ Char.ofNat n ≠ '%' ∧
        formBytes (Char.ofNat n) = [UInt8.ofNat n] := by
    decide +kernel
  have hbyte := hall b.toNat b.toNat_lt
  rw [UInt8.ofNat_toNat] at hbyte
  exact hbyte h

theorem isFormCharacter_of_mem_upperDigits {c : Char} (h : c ∈ upperDigits) :
    IsFormCharacter c := by
  have hall : ∀ c ∈ upperDigits, IsFormCharacter c := List.all_iff_forall_prop.mp (by decide)
  exact hall c h

theorem isFormCharacter_of_mem_formEncodeByte {b : UInt8} {c : Char} (h : c ∈ formEncodeByte b) :
    IsFormCharacter c := by
  unfold formEncodeByte at h
  split_ifs at h with hsafe hspace
  · rw [List.mem_singleton.mp h]
    exact (isFormSafe_cases hsafe).1
  · rw [List.mem_singleton.mp h]
    decide
  · rcases List.mem_cons.mp h with rfl | h
    · decide
    · exact isFormCharacter_of_mem_upperDigits (mem_upperDigits_of_mem_hexByteUpper h)

theorem formDecode?_cons {c : Char} (hc : c ≠ '%') (cs : List Char) :
    formDecode? (c :: cs) = (formDecode? cs).map (formBytes c ++ ·) := by
  rw [formDecode?, if_neg hc]
  intro high low cs' heq
  exact absurd heq hc

/-- What is written for a byte decodes to it, whatever follows. -/
theorem formDecode?_formEncodeByte_append (b : UInt8) (rest : List Char) :
    formDecode? (formEncodeByte b ++ rest) = (formDecode? rest).map (b :: ·) := by
  unfold formEncodeByte
  split_ifs with hsafe hspace
  · obtain ⟨-, hpercent, hself⟩ := isFormSafe_cases hsafe
    rw [List.singleton_append, formDecode?_cons hpercent, hself]
    rfl
  · obtain rfl : b = 0x20 := beq_iff_eq.mp hspace
    exact formDecode?_cons (by decide) rest
  · rw [hexByteUpper, List.cons_append, List.cons_append, List.singleton_append, formDecode?,
      hexByte?_digits]
    cases formDecode? rest <;> rfl

/-! ## Texts -/

theorem formDecode?_flatMap (bs : List UInt8) :
    formDecode? (bs.flatMap formEncodeByte) = some bs := by
  induction bs with
  | nil => rfl
  | cons b bs ih =>
      rw [List.flatMap_cons, formDecode?_formEncodeByte_append, ih, Option.map_some]

/-- A text in form encoding decodes to its UTF-8 form. -/
theorem formDecode?_formEncode (s : String) : formDecode? (formEncode s).toList = some (utf8 s) := by
  rw [formEncode, String.toList_ofList]
  exact formDecode?_flatMap _

theorem isFormCharacter_of_mem_formEncode {s : String} {c : Char} (h : c ∈ (formEncode s).toList) :
    IsFormCharacter c := by
  rw [formEncode, String.toList_ofList] at h
  obtain ⟨b, -, h⟩ := List.mem_flatMap.mp h
  exact isFormCharacter_of_mem_formEncodeByte h

theorem formEncode_injective : Function.Injective formEncode := by
  intro s t h
  have hdecoded : some (utf8 s) = some (utf8 t) := by
    rw [← formDecode?_formEncode, ← formDecode?_formEncode, h]
  exact utf8_injective (Option.some.inj hdecoded)

/-- A text that looks encoded is encoded once more. -/
example : formEncode "a+%2B é" = "a%2B%252B+%C3%A9" := by decide

end Text
end DesignPages
