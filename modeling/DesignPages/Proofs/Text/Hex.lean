import DesignPages.Text.Hex
import Mathlib.Data.List.Basic

/-!
# Reading hexadecimal digits

This module reads bytes from pairs of hexadecimal digits.  The two upper-case digits of a byte read back
as this byte.
-/

namespace DesignPages
namespace Text

/-- The upper-case digits. -/
def upperDigits : List Char := "0123456789ABCDEF".toList

/-- The byte with these two digits. -/
def hexByte? (c d : Char) : Option UInt8 := do
  let high ← hexValue? c
  let low ← hexValue? d
  return UInt8.ofNat (high * 16 + low)

/-- The bytes with these digits, two for each byte. -/
def hexBytes? : List Char → Option (List UInt8)
  | [] => some []
  | [_] => none
  | c :: d :: cs => do
    let b ← hexByte? c d
    let bs ← hexBytes? cs
    return b :: bs

/-! ## Digits -/

theorem hexDigitUpper_mem {k : ℕ} (h : k < 16) : hexDigitUpper k ∈ upperDigits := by
  have hall : ∀ k < 16, hexDigitUpper k ∈ upperDigits := by decide
  exact hall k h

theorem hexValue?_hexDigitUpper {k : ℕ} (h : k < 16) : hexValue? (hexDigitUpper k) = some k := by
  have hall : ∀ k < 16, hexValue? (hexDigitUpper k) = some k := by decide
  exact hall k h

/-! ## Bytes -/

theorem highDigit_lt (b : UInt8) : b.toNat / 16 < 16 :=
  Nat.div_lt_of_lt_mul b.toNat_lt

theorem lowDigit_lt (b : UInt8) : b.toNat % 16 < 16 :=
  Nat.mod_lt _ (by decide)

theorem mem_upperDigits_of_mem_hexByteUpper {b : UInt8} {c : Char} (h : c ∈ hexByteUpper b) :
    c ∈ upperDigits := by
  rw [hexByteUpper, List.mem_pair] at h
  rcases h with rfl | rfl
  · exact hexDigitUpper_mem (highDigit_lt b)
  · exact hexDigitUpper_mem (lowDigit_lt b)

theorem hexByte?_digits (b : UInt8) :
    hexByte? (hexDigitUpper (b.toNat / 16)) (hexDigitUpper (b.toNat % 16)) = some b := by
  have hvalue : b.toNat / 16 * 16 + b.toNat % 16 = b.toNat := Nat.div_add_mod' _ _
  rw [hexByte?, hexValue?_hexDigitUpper (highDigit_lt b), hexValue?_hexDigitUpper (lowDigit_lt b)]
  simp only [Option.bind_eq_bind, Option.bind_some, hvalue, UInt8.ofNat_toNat]
  rfl

/-- The digits of bytes read back as these bytes. -/
theorem hexBytes?_flatMap (bs : List UInt8) : hexBytes? (bs.flatMap hexByteUpper) = some bs := by
  induction bs with
  | nil => rfl
  | cons b bs ih =>
      have hcons : (b :: bs).flatMap hexByteUpper = hexDigitUpper (b.toNat / 16) ::
          hexDigitUpper (b.toNat % 16) :: bs.flatMap hexByteUpper := rfl
      rw [hcons, hexBytes?, hexByte?_digits, ih]
      rfl

theorem length_flatMap_hexByteUpper (bs : List UInt8) :
    (bs.flatMap hexByteUpper).length = 2 * bs.length := by
  simp [List.length_flatMap, hexByteUpper, Nat.mul_comm]

end Text
end DesignPages
