import DesignPages.Proofs.Number.Arithmetic

/-!
# Singles that pass through a double

A decimal is read as a single by way of the nearest double, so that it is rounded twice.  For short
decimals the detour does no harm: such a decimal is either one of the ends of a rounding interval of
the singles, which doubles can express, or it keeps more distance from the end than the first rounding
can bridge.
-/

namespace DesignPages
namespace Number

theorem rounded_error {f : Format} {v : ℚ} {k : ℕ} (hk : IsNearest (v / 2 ^ f.target v) k) :
    |(k : ℚ) * 2 ^ f.target v - v| ≤ 2 ^ (f.target v - 1) := by
  have hpow : (0 : ℚ) < 2 ^ f.target v := by positivity
  have hscaled : (k : ℚ) * 2 ^ f.target v - v = -(v / 2 ^ f.target v - k) * 2 ^ f.target v := by
    field_simp
    ring
  rw [hscaled, abs_mul, abs_neg, abs_of_pos hpow, zpow_sub_one₀ two_ne_zero, mul_comm]
  have hhalf := hk.abs_sub_le
  calc
    (2 : ℚ) ^ f.target v * |v / 2 ^ f.target v - k| ≤ 2 ^ f.target v * (1 / 2) := by gcongr
    _ = 2 ^ f.target v * 2⁻¹ := by norm_num

theorem one_le_abs_sub_natCast {x y : ℕ} (h : x ≠ y) : (1 : ℚ) ≤ |(x : ℚ) - y| := by
  have hint : 1 ≤ |(x : ℤ) - y| := Int.one_le_abs (by omega)
  exact_mod_cast hint

/-- The scale on which decimals with at most twelve places and quarters of a binary place are whole
numbers. -/
def commonScale (q : ℤ) : ℚ :=
  5 ^ 12 * 2 ^ (2 - q)

theorem commonScale_pos (q : ℤ) : 0 < commonScale q := by
  unfold commonScale
  positivity

theorem short_mul_commonScale {v : ℚ} {n : ℕ} {q : ℤ} (hn : v * 10 ^ 12 = n) (hq : q ≤ -10) :
    ∃ x : ℕ, v * commonScale q = x := by
  obtain ⟨a, ha⟩ := Int.eq_ofNat_of_zero_le (show 0 ≤ -10 - q by omega)
  have hsplit : (2 : ℚ) ^ (2 - q) = 2 ^ 12 * 2 ^ a := by
    rw [← zpow_natCast (2 : ℚ) a, ← ha, ← zpow_natCast, ← zpow_add₀ two_ne_zero]
    congr 1
    push_cast
    ring
  have hten : (10 : ℚ) ^ 12 = 5 ^ 12 * 2 ^ 12 := by norm_num
  refine ⟨n * 2 ^ a, ?_⟩
  rw [commonScale, hsplit]
  push_cast
  rw [← hn, hten]
  ring

theorem quarter_mul_commonScale (b : ℕ) (q : ℤ) :
    (b : ℚ) * 2 ^ (q - 2) * commonScale q = (b * 5 ^ 12 : ℕ) := by
  have hone : (2 : ℚ) ^ (q - 2) * 2 ^ (2 - q) = 1 := by
    rw [← zpow_add₀ two_ne_zero, show q - 2 + (2 - q) = 0 by ring, zpow_zero]
  unfold commonScale
  calc
    (b : ℚ) * 2 ^ (q - 2) * (5 ^ 12 * 2 ^ (2 - q)) =
        b * 5 ^ 12 * ((2 : ℚ) ^ (q - 2) * 2 ^ (2 - q)) := by
      rw [mul_assoc, mul_left_comm ((2 : ℚ) ^ (q - 2)), ← mul_assoc]
    _ = ((b * 5 ^ 12 : ℕ) : ℚ) := by
      rw [hone, mul_one, Nat.cast_mul, Nat.cast_pow, Nat.cast_ofNat]

theorem bridge_mul_commonScale (q : ℤ) : (2 : ℚ) ^ (q - 30) * commonScale q < 1 := by
  have hpow : (2 : ℚ) ^ (q - 30) * 2 ^ (2 - q) = (2 ^ 28)⁻¹ := by
    rw [← zpow_add₀ two_ne_zero, ← zpow_natCast, ← zpow_neg]
    congr 1
    push_cast
    ring
  unfold commonScale
  calc
    (2 : ℚ) ^ (q - 30) * (5 ^ 12 * 2 ^ (2 - q)) = 5 ^ 12 * (2 ^ (q - 30) * 2 ^ (2 - q)) := by ring
    _ < 1 := by
      rw [hpow]
      norm_num

/-- A decimal with at most twelve places and a quarter of a binary place are equal or further apart
than a double can bridge. -/
theorem gap_of_short {v : ℚ} {n b : ℕ} {q : ℤ} (hn : v * 10 ^ 12 = n) (hq : q ≤ -10)
    (hne : v ≠ b * 2 ^ (q - 2)) :
    (2 : ℚ) ^ (q - 30) < |v - b * 2 ^ (q - 2)| := by
  have hscale := commonScale_pos q
  obtain ⟨x, hx⟩ := short_mul_commonScale hn hq
  have hb := quarter_mul_commonScale b q
  -- On the common scale both are whole numbers, and different ones.
  have hapart : (1 : ℚ) ≤ |v - b * 2 ^ (q - 2)| * commonScale q := by
    have hmove : |v - b * 2 ^ (q - 2)| * commonScale q = |(x : ℚ) - (b * 5 ^ 12 : ℕ)| := by
      rw [← hx, ← hb, ← sub_mul, abs_mul, abs_of_pos hscale]
    rw [hmove]
    apply one_le_abs_sub_natCast
    intro heq
    apply hne
    have hmul : v * commonScale q = b * 2 ^ (q - 2) * commonScale q := by
      rw [hx, hb, heq]
    exact mul_right_cancel₀ hscale.ne' hmul
  exact lt_of_mul_lt_mul_right ((bridge_mul_commonScale q).trans_le hapart) hscale.le

/-- The double nearest to a short decimal lies on the same side of the ends of the rounding intervals
of the singles as the decimal. -/
theorem same_side {v : ℚ} {k n : ℕ} {q : ℤ} (hv : 0 < v)
    (hk : IsNearest (v / 2 ^ double.target v) k) (hn : v * 10 ^ 12 = n) (hq : q ≤ -10)
    (hleast : single.leastExponent ≤ q) (hlt : v < 2 ^ (q + 24)) (b : ℕ) :
    (v < b * 2 ^ (q - 2) ↔ (k : ℚ) * 2 ^ double.target v < b * 2 ^ (q - 2)) ∧
      (b * 2 ^ (q - 2) < v ↔ b * 2 ^ (q - 2) < (k : ℚ) * 2 ^ double.target v) := by
  have htarget : double.target v ≤ q - 29 := by
    have hlog := (Int.lt_zpow_iff_log_lt (b := 2) (by decide) hv).mp (by exact_mod_cast hlt)
    have hsingle : single.leastExponent = -149 := by decide
    have hdouble : double.leastExponent = -1074 := by decide
    have hbits : (double.fractionBits : ℤ) = 52 := rfl
    unfold Format.target
    omega
  have herror : |(k : ℚ) * 2 ^ double.target v - v| ≤ 2 ^ (q - 30) := by
    apply (rounded_error hk).trans
    apply zpow_le_zpow_right₀ (by norm_num)
    omega
  have hends := abs_le.mp herror
  rcases lt_trichotomy v (b * 2 ^ (q - 2)) with h | h | h
  · have hgap := gap_of_short hn hq h.ne
    rw [abs_of_neg (by linarith)] at hgap
    have hside : (k : ℚ) * 2 ^ double.target v < b * 2 ^ (q - 2) := by linarith [hends.2]
    exact ⟨iff_of_true h hside, iff_of_false h.not_gt hside.not_gt⟩
  · -- The end of the interval is itself a double.
    obtain ⟨a, ha⟩ := Int.eq_ofNat_of_zero_le (show 0 ≤ q - 2 - double.target v by omega)
    have hwhole : v / 2 ^ double.target v = (b * 2 ^ a : ℕ) := by
      have hpow : (2 : ℚ) ^ (q - 2) = 2 ^ a * 2 ^ double.target v := by
        rw [← zpow_natCast (2 : ℚ) a, ← ha, ← zpow_add₀ two_ne_zero, sub_add_cancel]
      rw [div_eq_iff (by positivity)]
      push_cast
      rw [mul_assoc, ← hpow]
      exact h
    have hexact : (k : ℚ) * 2 ^ double.target v = v := by
      have hkeq := hk.unique (hwhole ▸ isNearest_natCast _)
      rw [hkeq, ← hwhole]
      field_simp
    rw [hexact]
    exact ⟨Iff.rfl, Iff.rfl⟩
  · have hgap := gap_of_short hn hq h.ne'
    rw [abs_of_pos (by linarith)] at hgap
    have hside : b * 2 ^ (q - 2) < (k : ℚ) * 2 ^ double.target v := by linarith [hends.1]
    exact ⟨iff_of_false h.not_gt hside.not_gt, iff_of_true h hside⟩

/-- Values that lie on the same sides of all quarters have the same nearest whole number. -/
theorem IsNearest.of_same_side {x y : ℚ} {m : ℕ} (hm : 0 < m)
    (hbelow : ∀ b : ℕ, x < b / 4 ↔ y < b / 4) (habove : ∀ b : ℕ, b / 4 < x ↔ b / 4 < y)
    (h : IsNearest x m) : IsNearest y m := by
  have hhigh : ((4 * m + 2 : ℕ) : ℚ) / 4 = m + 1 / 2 := by
    push_cast
    ring
  have hlow : ((4 * m - 2 : ℕ) : ℚ) / 4 = m - 1 / 2 := by
    rw [Nat.cast_sub (by omega)]
    push_cast
    ring
  have hends := abs_le.mp h.abs_sub_le
  have hupper := mt (habove (4 * m + 2)).mpr
  have hlower := mt (hbelow (4 * m - 2)).mpr
  rw [hhigh, not_lt, not_lt] at hupper
  rw [hlow, not_lt, not_lt] at hlower
  have hdist : |y - m| ≤ 1 / 2 := by
    rw [abs_le]
    constructor
    · linarith [hlower (by linarith [hends.1])]
    · linarith [hupper (by linarith [hends.2])]
  rcases h with hlt | ⟨-, heven⟩
  · left
    have hinside := abs_lt.mp hlt
    have hleft := (habove (4 * m - 2)).mp (by rw [hlow]; linarith [hinside.1])
    have hright := (hbelow (4 * m + 2)).mp (by rw [hhigh]; linarith [hinside.2])
    rw [hlow] at hleft
    rw [hhigh] at hright
    rw [abs_lt]
    constructor <;> linarith
  · rcases hdist.lt_or_eq with hlt | heq
    · exact Or.inl hlt
    · exact Or.inr ⟨heq, heven⟩

/-- Values that lie on the same sides of all quarters of a binary place are rounded alike. -/
theorem Format.RoundsTo.of_same_side {f : Format} {v w : ℚ} {m : ℕ} {q : ℤ} (hm : 0 < m)
    (hside : ∀ b : ℕ, (v < b * 2 ^ (q - 2) ↔ w < b * 2 ^ (q - 2)) ∧
      (b * 2 ^ (q - 2) < v ↔ b * 2 ^ (q - 2) < w))
    (h : f.RoundsTo v m q) :
    f.RoundsTo w m q := by
  have hpow : (0 : ℚ) < 2 ^ q := by positivity
  have hquarter (b : ℕ) : (b : ℚ) * 2 ^ (q - 2) = b / 4 * 2 ^ q := by
    rw [zpow_sub₀ two_ne_zero]
    norm_num
    ring
  have hbelow (b : ℕ) : v / 2 ^ q < b / 4 ↔ w / 2 ^ q < b / 4 := by
    have hb := (hside b).1
    rw [hquarter] at hb
    rw [div_lt_iff₀ hpow, div_lt_iff₀ hpow]
    exact hb
  have habove (b : ℕ) : b / 4 < v / 2 ^ q ↔ b / 4 < w / 2 ^ q := by
    have hb := (hside b).2
    rw [hquarter] at hb
    rw [lt_div_iff₀ hpow, lt_div_iff₀ hpow]
    exact hb
  refine ⟨h.toCanonical, h.nearest.of_same_side hm hbelow habove, ?_⟩
  intro hfull hleast
  have hnear : ((4 * m - 1 : ℕ) : ℚ) / 4 = m - 1 / 4 := by
    rw [Nat.cast_sub (by omega)]
    push_cast
    ring
  have hge := h.above hfull hleast
  have hside' := mt (hbelow (4 * m - 1)).mpr
  rw [hnear, not_lt, not_lt] at hside'
  exact hside' hge

/-! ## The two steps of reading a single -/

/-- The single nearest to a double is the one nearest to its value. -/
theorem narrow_doubleOfBits (negative : Bool) {b : ℕ} (hb : b < double.infinity) :
    narrow (doubleOfBits (double.sign negative + b)) =
      singleOfBits (single.sign negative + single.round (double.valueOf b)) := by
  obtain ⟨m, q, hc, rfl, -⟩ := Format.exists_place_of_lt hb
  have hbits : double.sign negative + double.place m q < 2 ^ 64 :=
    Format.sign_add_lt (f := double) negative (hb.trans (Format.infinity_lt _))
  have hdatum := Format.datum_sign_add_place negative hc hb
  have hquotient := scaled_quotient m 1 (-q)
  rw [neg_neg, one_mul, Nat.cast_one, div_one, zpow_neg, div_inv_eq_mul] at hquotient
  rw [narrow, ofDouble_doubleOfBits hbits (by rw [hdatum]; simp), hdatum, Format.bits,
    Format.magnitude_eq_round _ (twoPow_pos _), hquotient, Format.valueOf_place hc hb]

/-- The single nearest to a value: infinity, or the number that the value is rounded to. -/
theorem ofSingle_nearest (negative : Bool) {v : ℚ} (hv : 0 ≤ v) :
    (ofSingle (singleOfBits (single.sign negative + single.round v)) = .infinite negative ∧
        1 < v) ∨
      ∃ m q, ofSingle (singleOfBits (single.sign negative + single.round v)) =
          .finite negative m q ∧ (m : ℚ) * 2 ^ q = single.valueOf (single.round v) ∧
        single.round v < single.infinity := by
  have hle := single.round_le_infinity v
  have hbits : single.sign negative + single.round v < 2 ^ 32 :=
    Format.sign_add_lt (f := single) negative (hle.trans_lt (Format.infinity_lt _))
  rcases hle.lt_or_eq with hfinite | hinfinite
  · right
    obtain ⟨m, q, hc, hplace, -⟩ := Format.exists_place_of_lt hfinite
    rw [hplace] at hbits hfinite ⊢
    have hdatum := Format.datum_sign_add_place negative hc hfinite
    refine ⟨m, q, ?_, (Format.valueOf_place hc hfinite).symm, hfinite⟩
    rw [ofSingle_singleOfBits hbits (by rw [hdatum]; simp), hdatum]
  · left
    constructor
    · rw [hinfinite] at hbits ⊢
      have hdatum := Format.datum_sign_add_infinity (f := single) negative
      rw [ofSingle_singleOfBits hbits (by rw [hdatum]; simp), hdatum]
    · by_contra hsmall
      have hone : single.round 1 < single.infinity := by decide +kernel
      have hmono := Format.round_mono (f := single) hv (not_lt.mp hsmall)
      rw [hinfinite] at hmono
      exact absurd hmono (not_le.mpr hone)

end Number
end DesignPages
