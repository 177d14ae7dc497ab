import DesignPages.Proofs.Number.Bits

/-!
# Small products of singles

The product of two singles is rounded in steps: its significand is shifted to the digits that a single
has room for, rounded, and shifted once more if rounding has made it too long.  The result is again a
number of the format, and not beyond the next power of two.
-/

namespace DesignPages
namespace Number

open Float.Model (totalExponent)
open Float.Model.Format (binary32)
open Float.Model.UnpackedFloat (Accuracy ExtendedMantissa Sign roundWithAccuracy shiftToExponent
  shiftToTargetExponent)

theorem shiftRight_mantissa (em : ExtendedMantissa) (k : ℕ) :
    (em >>> k).mantissa = em.mantissa / 2 ^ k := by
  induction k with
  | zero => exact (Nat.div_one _).symm
  | succ k ih =>
      change (em >>> k).mantissa / 2 = em.mantissa / 2 ^ (k + 1)
      rw [ih, Nat.div_div_eq_div_mul, ← pow_succ]

theorem roundedMantissa_bounds (em : ExtendedMantissa) :
    em.mantissa ≤ em.roundedMantissa ∧ em.roundedMantissa ≤ em.mantissa + 1 := by
  obtain ⟨m, r, s⟩ := em
  unfold ExtendedMantissa.roundedMantissa
  cases r <;> cases s
  · exact ⟨le_rfl, Nat.le_succ m⟩
  · exact ⟨le_rfl, Nat.le_succ m⟩
  · change m ≤ m + m % 2 ∧ m + m % 2 ≤ m + 1
    omega
  · exact ⟨Nat.le_succ m, le_rfl⟩

theorem targetExponent_binary32 (m : ℕ) (e : ℤ) :
    binary32.targetExponent (totalExponent m e) = max (Nat.log2 m + 1 + e - 24) (-149) :=
  rfl

/-- A significand is shifted until it has the exponent that is aimed at. -/
theorem shiftToTargetExponent_eq {m k : ℕ} {e : ℤ}
    (hk : (binary32.targetExponent (totalExponent m e) - e).toNat = k) :
    (shiftToTargetExponent binary32 m e .exact).1.mantissa = m / 2 ^ k ∧
      (shiftToTargetExponent binary32 m e .exact).2 = e + k := by
  unfold shiftToTargetExponent shiftToExponent
  dsimp only
  rw [hk, shiftRight_mantissa]
  exact ⟨rfl, rfl⟩

/-- A significand that a single has room for is not shifted. -/
theorem shiftToTargetExponent_of_lt {r : ℕ} {e : ℤ} (hr : r < 2 ^ 24) (he : -149 ≤ e) :
    (shiftToTargetExponent binary32 r e .exact).1.mantissa = r ∧
      (shiftToTargetExponent binary32 r e .exact).2 = e := by
  have hlog : Nat.log2 r ≤ 23 := by
    rcases Nat.eq_zero_or_pos r with rfl | hpos
    · decide
    · exact Nat.le_of_lt_succ ((Nat.log2_lt hpos.ne').mpr hr)
  obtain ⟨hmantissa, hexponent⟩ := shiftToTargetExponent_eq (m := r) (e := e) (k := 0)
    (by rw [targetExponent_binary32]; omega)
  exact ⟨by rw [hmantissa, pow_zero, Nat.div_one], by rw [hexponent]; omega⟩

/-- A significand that rounding has made too long is shifted by one. -/
theorem shiftToTargetExponent_of_eq {e : ℤ} (he : -149 ≤ e) :
    (shiftToTargetExponent binary32 (2 ^ 24) e .exact).1.mantissa = 2 ^ 23 ∧
      (shiftToTargetExponent binary32 (2 ^ 24) e .exact).2 = e + 1 :=
  shiftToTargetExponent_eq (k := 1) (by rw [targetExponent_binary32, Nat.log2_two_pow]; omega)

/-- Rounding gives a number of the format, with the exponent that was aimed at or the next one. -/
theorem roundWithAccuracy_binary32 (negative : Bool) {m : ℕ} {e : ℤ} (hm : 0 < m)
    (he : e ≤ binary32.targetExponent (totalExponent m e)) :
    ∃ r q, single.Canonical r q ∧ q ≤ binary32.targetExponent (totalExponent m e) + 1 ∧
      roundWithAccuracy binary32 (signOf negative) m e .exact =
        (Datum.finite negative r q).unpacked := by
  set t := binary32.targetExponent (totalExponent m e) with ht
  have htarget : t = max (Nat.log2 m + 1 + e - 24) (-149) := targetExponent_binary32 m e
  obtain ⟨k, hk⟩ := Int.eq_ofNat_of_zero_le (Int.sub_nonneg_of_le he)
  have hleast : -149 ≤ t := by omega
  have hlog : Nat.log2 m + 1 ≤ 24 + k := by omega
  obtain ⟨hmantissa, hexponent⟩ := shiftToTargetExponent_eq (m := m) (e := e) (k := k)
    (by rw [← ht, hk, Int.toNat_natCast])
  set first := shiftToTargetExponent binary32 m e .exact with hfirst
  have hlast : first.2 = t := by omega
  obtain ⟨hlower, hupper⟩ := roundedMantissa_bounds first.1
  rw [hmantissa] at hlower hupper
  have hfits : m / 2 ^ k < 2 ^ 24 := by
    rw [Nat.div_lt_iff_lt_mul (by positivity), ← pow_add]
    exact Nat.lt_log2_self.trans_le (Nat.pow_le_pow_right (by decide) hlog)
  have hfull : -149 < t → 2 ^ 23 ≤ first.1.roundedMantissa := by
    intro hlt
    have hle : 2 ^ 23 ≤ m / 2 ^ k := by
      rw [Nat.le_div_iff_mul_le (by positivity), ← pow_add]
      exact (Nat.pow_le_pow_right (by decide) (by omega)).trans (Nat.log2_self_le hm.ne')
    exact hle.trans hlower
  have hround : roundWithAccuracy binary32 (signOf negative) m e .exact =
      (Datum.finite negative
        (shiftToTargetExponent binary32 first.1.roundedMantissa first.2 .exact).1.mantissa
        (shiftToTargetExponent binary32 first.1.roundedMantissa first.2 .exact).2).unpacked := by
    rw [hfirst]
    rfl
  rw [hround, hlast]
  rcases Nat.lt_or_ge first.1.roundedMantissa (2 ^ 24) with hlt | hge
  · obtain ⟨hm', he'⟩ := shiftToTargetExponent_of_lt hlt hleast
    rw [hm', he']
    exact ⟨_, _, ⟨hlt, hleast, hfull⟩, by omega, rfl⟩
  · have heq : first.1.roundedMantissa = 2 ^ 24 := by omega
    rw [heq]
    obtain ⟨hm', he'⟩ := shiftToTargetExponent_of_eq hleast
    rw [hm', he']
    exact ⟨_, _, ⟨by decide, by change -149 ≤ t + 1; omega, fun _ => le_rfl⟩, le_rfl, rfl⟩

theorem log2_mul_bounds {m n : ℕ} (hm : 0 < m) (hn : 0 < n) :
    Nat.log2 m + Nat.log2 n ≤ Nat.log2 (m * n) ∧
      Nat.log2 (m * n) ≤ Nat.log2 m + Nat.log2 n + 1 := by
  have hmn := Nat.mul_pos hm hn
  constructor
  · rw [Nat.le_log2 hmn.ne', pow_add]
    exact Nat.mul_le_mul (Nat.log2_self_le hm.ne') (Nat.log2_self_le hn.ne')
  · apply Nat.le_of_lt_succ
    rw [Nat.log2_lt hmn.ne']
    calc
      m * n < 2 ^ (Nat.log2 m + 1) * 2 ^ (Nat.log2 n + 1) :=
        Nat.mul_lt_mul'' Nat.lt_log2_self Nat.lt_log2_self
      _ = 2 ^ (Nat.log2 m + Nat.log2 n + 1).succ := by
        rw [← pow_add]
        congr 1
        omega

/-- The product of a small single and 255. -/
theorem ofSingle_mul_255 {x : Float32} {m : ℕ} {q : ℤ} (hx : ofSingle x = .finite false m q)
    (hm : 0 < m) (hsmall : (Nat.log2 m : ℤ) + q ≤ -13) :
    ∃ r p, ofSingle (x * 255) = .finite false r p ∧ single.Canonical r p ∧ p ≤ -27 := by
  obtain ⟨hlower, hupper⟩ := log2_mul_bounds hm (n := 16711680) (by decide)
  have hlog : Nat.log2 16711680 = 23 := by decide
  rw [hlog] at hlower hupper
  have hproduct : 0 < m * 16711680 := Nat.mul_pos hm (by decide)
  obtain ⟨r, p, hc, hp, hround⟩ := roundWithAccuracy_binary32 false hproduct (e := q + -16)
    (by rw [targetExponent_binary32]; omega)
  rw [targetExponent_binary32] at hp
  have hbound : p ≤ -27 := by omega
  refine ⟨r, p, ?_, hc, hbound⟩
  have hfinite : single.place r p < single.infinity := by
    have hr := hc.fits
    have hpow : (2 : ℕ) ^ (single.fractionBits + 1) = 16777216 := by decide
    have hinfinity : single.infinity = 255 * 8388608 := by decide
    have hexp : (p - single.leastExponent).toNat ≤ 122 := by
      have hsingle : single.leastExponent = -149 := by decide
      omega
    have htwo : twoPow single.fractionBits = 8388608 := by decide
    rw [Format.place, htwo, hinfinity]
    omega
  have hfactor : ofSingle 255 = .finite false 16711680 (-16) := by decide
  rw [← ofSingle_pack false hc hfinite, ← hround]
  change ofSingle (.ofModel (.pack (.mul binary32 x.toModel.unpack (255 : Float32).toModel.unpack))) = _
  rw [unpack_single, unpack_single, hx, hfactor, Datum.unpacked, dif_neg hm.ne']
  rfl

end Number
end DesignPages
