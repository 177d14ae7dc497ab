import DesignPages.Number.Scaling
import DesignPages.Proofs.Number.Arithmetic
import DesignPages.Proofs.Number.Shortest

/-!
# Errors of scaling by powers of ten

A significand that is scaled by a power of ten is rounded up to three times.  Still what comes out is
finite, it stays on the right side of one, and it is the nearest double as long as both the significand
and the power are doubles themselves.  Nothing gets lost on the way but what lies beyond the middle
between the two largest doubles.
-/

namespace DesignPages
namespace Number

/-! ## Powers of ten -/

theorem magnitude_natCast (n : ℕ) : double.magnitude n 1 = double.round n := by
  rw [Format.magnitude_eq_round n Nat.one_pos, Nat.cast_one, div_one]

theorem tenPow_mono {k j : ℕ} (h : k ≤ j) : tenPow k ≤ tenPow j :=
  Nat.pow_le_pow_right (by decide) h

theorem powerBits_eq (k : ℕ) : powerBits k = double.round (10 ^ k) := by
  rw [powerBits, magnitude_natCast, tenPow_cast]

theorem powerBits_lt {k : ℕ} (hk : k ≤ topPower) : powerBits k < double.infinity := by
  have htop : powerBits topPower < double.infinity := by decide +kernel
  refine lt_of_le_of_lt ?_ htop
  rw [powerBits_eq, powerBits_eq]
  exact Format.round_mono (by positivity) (pow_le_pow_right₀ (by norm_num) hk)

/-- The value of a power of ten as a double. -/
def powerValue (k : ℕ) : ℚ :=
  double.valueOf (powerBits k)

theorem powerValue_mono {k j : ℕ} (h : k ≤ j) (hj : j ≤ topPower) : powerValue k ≤ powerValue j := by
  have hlt := powerBits_lt hj
  unfold powerValue
  rw [powerBits_eq] at hlt ⊢
  rw [powerBits_eq]
  exact Format.valueOf_round_mono (by positivity) (pow_le_pow_right₀ (by norm_num) h) hlt

/-- Up to `10 ^ 22` powers of ten are doubles. -/
theorem powerValue_eq {k : ℕ} (hk : k ≤ 22) : powerValue k = 10 ^ k := by
  have hten : (10 : ℚ) ^ k = (5 ^ k : ℕ) * 2 ^ (k : ℤ) := by
    rw [zpow_natCast, Nat.cast_pow, ← mul_pow]
    norm_num
  have hlt := powerBits_lt (hk.trans (by decide))
  have hfive : 5 ^ k < 2 ^ (double.fractionBits + 1) :=
    (Nat.pow_le_pow_right (by decide) hk).trans_lt (by decide)
  unfold powerValue
  rw [powerBits_eq, hten] at *
  have hleast : double.leastExponent ≤ 0 := by decide
  exact Format.valueOf_round_of_digits hfive (by omega) hlt

theorem one_le_powerValue {k : ℕ} (hk : k ≤ topPower) : 1 ≤ powerValue k := by
  have hmono := powerValue_mono (Nat.zero_le k) hk
  rwa [powerValue_eq (Nat.zero_le _), pow_zero] at hmono

/-! ## Significands -/

theorem magnitude_lt {n : ℕ} (hn : n < 2 ^ 64) : double.magnitude n 1 < double.infinity := by
  have htop : double.magnitude (2 ^ 64) 1 < double.infinity := by decide +kernel
  refine (Format.magnitude_mono Nat.one_pos Nat.one_pos ?_).trans_lt htop
  rw [Nat.cast_one, div_one, div_one]
  exact_mod_cast hn.le

/-- The value of a significand as a double. -/
def significandValue (n : ℕ) : ℚ :=
  double.valueOf (double.magnitude n 1)

theorem significandValue_mono {n m : ℕ} (h : n ≤ m) (hm : m < 2 ^ 64) :
    significandValue n ≤ significandValue m := by
  have hlt := magnitude_lt hm
  unfold significandValue
  rw [magnitude_natCast] at hlt ⊢
  rw [magnitude_natCast]
  exact Format.valueOf_round_mono (by positivity) (by exact_mod_cast h) hlt

/-- A significand with few enough binary digits behind its first one is a double. -/
theorem significandValue_eq {a i : ℕ} (ha : a < 2 ^ 53) (hlt : a * 2 ^ i < 2 ^ 64) :
    significandValue (a * 2 ^ i) = (a * 2 ^ i : ℕ) := by
  have hfinite := magnitude_lt hlt
  have hcast : ((a * 2 ^ i : ℕ) : ℚ) = a * 2 ^ (i : ℤ) := by
    push_cast
    rw [zpow_natCast]
  unfold significandValue
  rw [magnitude_natCast, hcast] at hfinite ⊢
  exact Format.valueOf_round_of_digits ha ((by decide : double.leastExponent ≤ 0).trans (by omega))
    hfinite

theorem significandValue_nonneg (n : ℕ) : 0 ≤ significandValue n :=
  Format.valueOf_nonneg _ _

theorem one_le_significandValue {n : ℕ} (hn : 0 < n) (hlt : n < 2 ^ 64) :
    1 ≤ significandValue n := by
  have hone : significandValue 1 = (1 : ℕ) :=
    significandValue_eq (a := 1) (i := 0) (by decide) (by decide)
  rw [Nat.cast_one] at hone
  rw [← hone]
  exact significandValue_mono hn hlt

theorem magnitude_ne_zero {n : ℕ} (hn : 0 < n) (hlt : n < 2 ^ 64) : double.magnitude n 1 ≠ 0 := by
  intro hzero
  have hone := one_le_significandValue hn hlt
  have hvalue : double.valueOf 0 = 0 := by
    have hplace := Format.valueOf_place (f := double) (m := 0) (q := -1074)
      ⟨by decide, by decide, fun h => absurd h (by decide)⟩ (by decide)
    rwa [show double.place 0 (-1074) = 0 by decide, Nat.cast_zero, zero_mul] at hplace
  rw [significandValue, hzero, hvalue] at hone
  norm_num at hone

/-! ## What is worked out -/

theorem divideByTop_le (steps : ℕ) {x : ℕ} (hx : x < double.infinity) : divideByTop steps x ≤ x := by
  induction steps generalizing x with
  | zero => exact le_rfl
  | succ steps ih =>
      rw [divideByTop]
      split_ifs
      · exact Nat.zero_le x
      · have hle := Format.dividedBy_le hx (powerBits_lt le_rfl) (one_le_powerValue le_rfl)
        exact (ih (hle.trans_lt hx)).trans hle

/-- What is worked out is finite. -/
theorem lt_of_scaledBits?_eq_some {n b : ℕ} {e : ℤ} (hn : n < 2 ^ 64)
    (h : scaledBits? n e = some b) : b < double.infinity := by
  have hx := magnitude_lt hn
  unfold scaledBits? at h
  dsimp only at h
  split_ifs at h with hzero htop hsign hbeyond
  · rw [← Option.some_inj.mp h]
    decide
  · rw [← Option.some_inj.mp h]
    have hy := powerBits_lt (k := e.toNat) (by omega)
    rw [Format.times_eq hx hy] at hbeyond ⊢
    exact lt_of_le_of_ne (Format.round_le_infinity _ _) hbeyond
  · rw [← Option.some_inj.mp h]
    set steps := ((-e).toNat - 1) / topPower with hsteps
    have hrest : (-e).toNat - topPower * steps ≤ topPower := by
      have hdiv := Nat.div_add_mod ((-e).toNat - 1) topPower
      have hmod := Nat.mod_lt ((-e).toNat - 1) (show 0 < topPower by decide)
      rw [← hsteps] at hdiv
      omega
    have hleft := (divideByTop_le steps hx).trans_lt hx
    have hle := Format.dividedBy_le hleft (powerBits_lt hrest) (one_le_powerValue hrest)
    exact hle.trans_lt hleft

theorem scaledBits?_zero (e : ℤ) : scaledBits? 0 e = some 0 := by
  simp [scaledBits?, Format.magnitude]

/-- The rational number that is rounded in the last step, if there is only one step with the power. -/
def scaledValue (n : ℕ) (e : ℤ) : ℚ :=
  if 0 ≤ e then significandValue n * powerValue e.toNat
  else significandValue n / powerValue (-e).toNat

section OneStep

variable {n : ℕ} {e : ℤ}

theorem scaledBits?_eq (hn : 0 < n) (hlt : n < 2 ^ 64) (hlow : -(topPower : ℤ) ≤ e)
    (hhigh : e ≤ topPower) (hfinite : double.round (scaledValue n e) < double.infinity) :
    scaledBits? n e = some (double.round (scaledValue n e)) := by
  have hx := magnitude_lt hlt
  unfold scaledValue at hfinite ⊢
  unfold scaledBits?
  dsimp only
  rw [if_neg (magnitude_ne_zero hn hlt), if_neg (by omega)]
  split_ifs at hfinite ⊢ with hsign hbeyond
  · rw [Format.times_eq hx (powerBits_lt (by omega))] at hbeyond
    exact absurd hbeyond hfinite.ne
  · rw [Format.times_eq hx (powerBits_lt (by omega))]
    rfl
  · have hsteps : ((-e).toNat - 1) / topPower = 0 :=
      Nat.div_eq_of_lt (by have : 0 < topPower := by decide
                           omega)
    have hpower : (-e).toNat ≤ topPower := by omega
    rw [hsteps, Nat.mul_zero, Nat.sub_zero, divideByTop,
      Format.dividedBy_eq hx (powerBits_lt hpower) (zero_lt_one.trans_le (one_le_powerValue hpower))]
    rfl

theorem scaledValue_nonneg (n : ℕ) (e : ℤ) : 0 ≤ scaledValue n e := by
  have hpower (k : ℕ) : 0 ≤ powerValue k := Format.valueOf_nonneg _ _
  unfold scaledValue
  split_ifs
  · exact mul_nonneg (significandValue_nonneg n) (hpower _)
  · exact div_nonneg (significandValue_nonneg n) (hpower _)

/-- Nothing is lost if both the significand and the power are doubles. -/
theorem scaledValue_eq (hn : n < 2 ^ 53) (hlow : -22 ≤ e) (hhigh : e ≤ 22) :
    scaledValue n e = n * 10 ^ e := by
  have hvalue : significandValue n = n := by
    have heq := significandValue_eq (i := 0) hn (by omega)
    rwa [pow_zero, mul_one] at heq
  unfold scaledValue
  split_ifs with hsign
  · rw [hvalue, powerValue_eq (by omega), ← zpow_natCast, Int.toNat_of_nonneg hsign]
  · rw [hvalue, powerValue_eq (by omega), ← zpow_natCast, Int.toNat_of_nonneg (by omega), zpow_neg,
      div_inv_eq_mul]

/-- What is at least one stays at least one. -/
theorem one_le_scaledValue (hlt : n < 2 ^ 64) (hlow : -(topPower : ℤ) ≤ e) (hhigh : e ≤ topPower)
    (h : (1 : ℚ) ≤ n * 10 ^ e) : 1 ≤ scaledValue n e := by
  have hpos : 0 < n := by
    rcases Nat.eq_zero_or_pos n with rfl | hpos
    · norm_num at h
    · exact hpos
  unfold scaledValue
  split_ifs with hsign
  · exact one_le_mul_of_one_le_of_one_le (one_le_significandValue hpos hlt)
      (one_le_powerValue (by omega))
  · obtain ⟨k, hk⟩ := Int.eq_ofNat_of_zero_le (show 0 ≤ -e by omega)
    obtain rfl : e = -(k : ℤ) := by omega
    have hpower : k ≤ topPower := by omega
    rw [zpow_neg, zpow_natCast, ← div_eq_mul_inv, one_le_div (by positivity)] at h
    have hle : powerValue k ≤ significandValue n := by
      have hfinite := magnitude_lt hlt
      unfold powerValue significandValue
      rw [magnitude_natCast] at hfinite ⊢
      rw [powerBits_eq]
      exact Format.valueOf_round_mono (by positivity) h hfinite
    rw [neg_neg, Int.toNat_natCast, one_le_div (zero_lt_one.trans_le (one_le_powerValue hpower))]
    exact hle

/-- A bound with few binary digits is a double itself, so that a significand below it is not rounded
beyond it. -/
theorem significandValue_le_of_small {k : ℕ} (hk : k ≤ 22)
    (h : (n : ℚ) ≤ 2 ^ (-13 : ℤ) * 10 ^ k) : significandValue n ≤ 2 ^ (-13 : ℤ) * 10 ^ k := by
  have hbound : (2 : ℚ) ^ (-13 : ℤ) * 10 ^ k = (5 ^ k : ℕ) * 2 ^ ((k : ℤ) - 13) := by
    rw [zpow_sub₀ two_ne_zero, zpow_natCast, Nat.cast_pow, show (10 : ℚ) = 5 * 2 by norm_num,
      mul_pow]
    norm_num
    ring
  have hfive : 5 ^ k < 2 ^ (double.fractionBits + 1) :=
    (Nat.pow_le_pow_right (by decide) hk).trans_lt (by decide)
  have hleast : double.leastExponent ≤ (k : ℤ) - 13 :=
    (by decide : double.leastExponent ≤ -13).trans (by omega)
  have hfinite : double.round (2 ^ (-13 : ℤ) * 10 ^ k) < double.infinity := by
    refine lt_of_le_of_lt ?_ (powerBits_lt (hk.trans (by decide)))
    rw [powerBits_eq]
    refine Format.round_mono (by positivity) (mul_le_of_le_one_left (by positivity) ?_)
    norm_num
  have hmono := Format.valueOf_round_mono (Nat.cast_nonneg n) h hfinite
  rw [hbound] at hfinite hmono ⊢
  rwa [Format.valueOf_round_of_digits hfive hleast hfinite, ← magnitude_natCast] at hmono

theorem significandValue_le_of_digits (hn : n ≤ 10 ^ 17) : significandValue n ≤ 10 ^ 17 := by
  have htop : significandValue (5 ^ 17 * 2 ^ 17) = (5 ^ 17 * 2 ^ 17 : ℕ) :=
    significandValue_eq (by decide) (by decide)
  have hle := significandValue_mono (hn.trans_eq (show 10 ^ 17 = 5 ^ 17 * 2 ^ 17 by norm_num))
    (by decide)
  rw [htop] at hle
  norm_num at hle ⊢
  exact hle

/-- What is tiny stays tiny. -/
theorem scaledValue_le_of_tiny (hn : n ≤ 10 ^ 17) (hlow : -(topPower : ℤ) ≤ e) (he : e < 0)
    (h : (n : ℚ) * 10 ^ e ≤ 2 ^ (-13 : ℤ)) : scaledValue n e ≤ 2 ^ (-13 : ℤ) := by
  obtain ⟨k, hk⟩ := Int.eq_ofNat_of_zero_le (show 0 ≤ -e by omega)
  obtain rfl : e = -(k : ℤ) := by omega
  have hpower : k ≤ topPower := by omega
  have hone := one_le_powerValue hpower
  unfold scaledValue
  rw [if_neg (by omega), neg_neg, Int.toNat_natCast, div_le_iff₀ (by linarith)]
  rcases le_or_gt k 22 with hsmall | hlarge
  · rw [zpow_neg, zpow_natCast, ← div_eq_mul_inv, div_le_iff₀ (by positivity)] at h
    rw [powerValue_eq hsmall]
    exact significandValue_le_of_small hsmall h
  · have hpowers := powerValue_mono hlarge.le hpower
    rw [powerValue_eq le_rfl] at hpowers
    calc
      significandValue n ≤ 10 ^ 17 := significandValue_le_of_digits hn
      _ ≤ 2 ^ (-13 : ℤ) * 10 ^ 22 := by norm_num
      _ ≤ 2 ^ (-13 : ℤ) * powerValue k := by gcongr

end OneStep

/-! ## Numbers that do not get too large -/

/-- The middle between the two largest doubles. -/
def safeBound : ℕ := (2 ^ 54 - 3) * 2 ^ 970

/-- Up to `10 ^ 288` a significand of 64 bits can be scaled, whatever it is. -/
theorem times_lt_of_low :
    double.times (double.magnitude (2 ^ 64 - 1) 1) (powerBits 288) < double.infinity := by
  decide +kernel

/-- With each of the remaining powers the largest significand below the bound can be scaled. -/
theorem times_lt_of_high : ∀ i < 20,
    double.times (double.magnitude (safeBound / tenPow (289 + i)) 1) (powerBits (289 + i)) <
      double.infinity := by
  decide +kernel

theorem round_mul_lt_of_le {n m k j : ℕ} (hnm : n ≤ m) (hm : m < 2 ^ 64) (hkj : k ≤ j)
    (hj : j ≤ topPower)
    (h : double.times (double.magnitude m 1) (powerBits j) < double.infinity) :
    double.round (significandValue n * powerValue k) < double.infinity := by
  refine lt_of_le_of_lt ?_ h
  rw [Format.times_eq (magnitude_lt hm) (powerBits_lt hj)]
  have hnonneg := significandValue_nonneg n
  have hone := one_le_powerValue (hkj.trans hj)
  exact Format.round_mono (mul_nonneg hnonneg (by linarith)) <|
    mul_le_mul (significandValue_mono hnm hm) (powerValue_mono hkj hj) (by linarith)
      (significandValue_nonneg m)

/-- Below the bound scaling does not lead beyond the largest double. -/
theorem round_scaledValue_lt {n : ℕ} {e : ℤ} (hlt : n < 2 ^ 64) (hlow : -(topPower : ℤ) ≤ e)
    (hhigh : e ≤ topPower) (h : (n : ℚ) * 10 ^ e ≤ safeBound) :
    double.round (scaledValue n e) < double.infinity := by
  have htop : topPower = 308 := rfl
  unfold scaledValue
  split_ifs with hsign
  · obtain ⟨k, rfl⟩ := Int.eq_ofNat_of_zero_le hsign
    rw [Int.toNat_natCast]
    rcases le_or_gt k 288 with hsmall | hlarge
    · exact round_mul_lt_of_le (Nat.le_pred_of_lt hlt) (by decide) hsmall (by decide) times_lt_of_low
    · obtain ⟨i, rfl⟩ := Nat.exists_eq_add_of_le hlarge
      have hle : n ≤ safeBound / tenPow (289 + i) := by
        rw [Nat.le_div_iff_mul_le (tenPow_pos _)]
        rw [zpow_natCast, ← tenPow_cast] at h
        exact_mod_cast h
      have hfits : safeBound / tenPow (289 + i) < 2 ^ 64 := by
        refine (Nat.div_le_div_left ?_ (tenPow_pos 289)).trans_lt
          (show safeBound / tenPow 289 < 2 ^ 64 by decide +kernel)
        exact tenPow_mono (Nat.le_add_right 289 i)
      exact round_mul_lt_of_le hle hfits le_rfl (by omega) (times_lt_of_high i (by omega))
  · have hpower : (-e).toNat ≤ topPower := by omega
    have hfinite := magnitude_lt hlt
    have hone := one_le_powerValue hpower
    have hle := Format.dividedBy_le hfinite (powerBits_lt hpower) hone
    rw [Format.dividedBy_eq hfinite (powerBits_lt hpower) (zero_lt_one.trans_le hone)] at hle
    exact hle.trans_lt hfinite

/-- Below the bound there is always something that is worked out. -/
theorem exists_scaledBits?_eq {n : ℕ} {e : ℤ} (hlt : n < 2 ^ 64) (h : (n : ℚ) * 10 ^ e ≤ safeBound) :
    ∃ b, scaledBits? n e = some b := by
  rcases Nat.eq_zero_or_pos n with rfl | hn
  · exact ⟨0, scaledBits?_zero e⟩
  · rcases lt_or_ge e 0 with hneg | hsign
    · have htop : ¬(topPower : ℤ) < e := by omega
      unfold scaledBits?
      dsimp only
      rw [if_neg (magnitude_ne_zero hn hlt), if_neg htop, if_neg (by omega)]
      exact ⟨_, rfl⟩
    · have hhigh : e ≤ topPower := by
        have hone : (1 : ℚ) ≤ n := by exact_mod_cast hn
        have hpow : (10 : ℚ) ^ e < 10 ^ ((topPower + 1 : ℕ) : ℤ) := by
          calc
            (10 : ℚ) ^ e ≤ n * 10 ^ e := le_mul_of_one_le_left (by positivity) hone
            _ ≤ safeBound := h
            _ < (10 ^ (topPower + 1) : ℕ) := by
              exact_mod_cast (show safeBound < 10 ^ (topPower + 1) by decide +kernel)
            _ = 10 ^ ((topPower + 1 : ℕ) : ℤ) := by
              rw [zpow_natCast, Nat.cast_pow, Nat.cast_ofNat]
        have hlt := (zpow_lt_zpow_iff_right₀ (by norm_num)).mp hpow
        omega
      have hlow : -(topPower : ℤ) ≤ e := by omega
      exact ⟨_, scaledBits?_eq hn hlt hlow hhigh (round_scaledValue_lt hlt hlow hhigh h)⟩

/-- A double below the largest one has a smaller exponent or a smaller significand. -/
theorem below_largest {m : ℕ} {q : ℤ} (h : double.Canonical m q)
    (hplace : double.place m q + 1 < double.infinity) : q < 971 ∨ q = 971 ∧ m + 2 ≤ 2 ^ 53 := by
  have hinfinity : double.infinity = 2047 * 2 ^ 52 := rfl
  have hleast : double.leastExponent = -1074 := by decide
  have hbits : double.place m q = (q - double.leastExponent).toNat * 2 ^ 52 + m := rfl
  have hsmall := h.least_le
  rcases lt_trichotomy q 971 with hlt | rfl | hgt
  · exact .inl hlt
  · have hsteps : (971 - double.leastExponent).toNat = 2045 := by decide
    exact .inr ⟨rfl, by omega⟩
  · have hfull : 2 ^ 52 ≤ m := h.full (by omega)
    have hsteps : 2046 ≤ (q - double.leastExponent).toNat := by omega
    have hmul := Nat.mul_le_mul_right (2 ^ 52) hsteps
    omega

/-- What is rounded to a double below the largest one does not exceed the bound. -/
theorem le_safeBound {v : ℚ} {m : ℕ} {q : ℤ} (h : double.RoundsTo v m q)
    (hplace : double.place m q + 1 < double.infinity) : v ≤ safeBound := by
  have hfits : m < 2 ^ 53 := h.fits
  have hbound := (abs_le.mp h.nearest.abs_sub_le).2
  have hscaled : v ≤ (m + 1 / 2) * 2 ^ q := by
    rw [← div_le_iff₀ (by positivity)]
    linarith
  have hcast : (safeBound : ℚ) = (2 ^ 54 - 3) * 2 ^ (970 : ℤ) := by
    rw [safeBound, Nat.cast_mul, Nat.cast_sub (by decide), Nat.cast_pow, Nat.cast_pow]
    rfl
  rw [hcast]
  refine hscaled.trans ?_
  rcases below_largest h.toCanonical hplace with hlt | ⟨rfl, hless⟩
  · have hm : (m : ℚ) + 1 / 2 ≤ 2 ^ 54 - 3 := by
      have hcastm : (m : ℚ) ≤ 2 ^ 53 := by exact_mod_cast hfits.le
      linarith
    exact mul_le_mul hm (zpow_le_zpow_right₀ (by norm_num) (by omega)) (by positivity) (by norm_num)
  · have hm : (m : ℚ) + 2 ≤ 2 ^ 53 := by exact_mod_cast hless
    have hdouble : (2 : ℚ) ^ (971 : ℤ) = 2 ^ (970 : ℤ) * 2 := zpow_add_one₀ two_ne_zero 970
    rw [hdouble, mul_comm ((2 : ℚ) ^ (970 : ℤ)), ← mul_assoc]
    refine mul_le_mul_of_nonneg_right ?_ (by positivity)
    linarith

end Number
end DesignPages
