import DesignPages.Proofs.Number.Bits

/-!
# Rounding of rational numbers

Rounding is taken as a function of rational numbers here.  It grows with its argument and does not
change the numbers of the format.  Products and quotients of numbers of the format are those of their
values, rounded.
-/

namespace DesignPages
namespace Number
namespace Format

/-- The number that bits without a sign stand for, if they are finite. -/
def valueOf (f : Format) (b : ℕ) : ℚ :=
  match f.datum b with
  | .finite _ m q => m * 2 ^ q
  | _ => 0

/-- The bits of the number of the format nearest to a rational number that is not negative. -/
def round (f : Format) (v : ℚ) : ℕ :=
  f.magnitude v.num.toNat v.den

variable {f : Format} {b x y : ℕ} {v w : ℚ}

theorem magnitude_congr {n d n' d' : ℕ} (hd : 0 < d) (hd' : 0 < d')
    (h : (n : ℚ) / d = n' / d') : f.magnitude n d = f.magnitude n' d' :=
  le_antisymm (magnitude_mono hd hd' h.le) (magnitude_mono hd' hd h.ge)

theorem toNat_num_div_den (hv : 0 ≤ v) : (v.num.toNat : ℚ) / v.den = v := by
  have hnum : ((v.num.toNat : ℤ) : ℚ) = v.num := by
    rw [Int.toNat_of_nonneg (Rat.num_nonneg.mpr hv)]
  rw [← Int.cast_natCast, hnum, Rat.num_div_den]

theorem toNat_num_pos (hv : 0 < v) : 0 < v.num.toNat := by
  have hpos := Rat.num_pos.mpr hv
  omega

theorem magnitude_eq_round (n : ℕ) {d : ℕ} (hd : 0 < d) : f.magnitude n d = f.round (n / d) :=
  magnitude_congr hd (Rat.den_pos _) (toNat_num_div_den (by positivity)).symm

theorem round_le_infinity (f : Format) (v : ℚ) : f.round v ≤ f.infinity := by
  unfold round magnitude
  split_ifs
  · exact Nat.zero_le _
  · exact min_le_left _ _

/-- Rounding grows with the value. -/
theorem round_mono (hv : 0 ≤ v) (h : v ≤ w) : f.round v ≤ f.round w :=
  magnitude_mono (Rat.den_pos _) (Rat.den_pos _) <| by
    rwa [toNat_num_div_den hv, toNat_num_div_den (hv.trans h)]

/-- Bits below infinity stand for a number of the format. -/
theorem exists_place_of_lt (hb : b < f.infinity) :
    ∃ m q, f.Canonical m q ∧ b = f.place m q ∧ f.datum b = .finite false m q := by
  have hfinite := isFinite_datum false hb
  have hsign : f.sign false + b = b := Nat.zero_add b
  rw [hsign] at hfinite
  obtain ⟨negative, m, q, hdatum⟩ := Datum.isFinite_iff.mp hfinite
  have hlt := hb.trans f.infinity_lt
  obtain ⟨hc, hplace, hbits⟩ := eq_of_datum_eq_finite (by omega) hdatum
  cases negative with
  | false => exact ⟨m, q, hc, hbits.trans (Nat.zero_add _), hdatum⟩
  | true =>
      rw [sign, if_pos rfl] at hbits
      omega

theorem valueOf_place {m : ℕ} {q : ℤ} (hc : f.Canonical m q) (hfinite : f.place m q < f.infinity) :
    f.valueOf (f.place m q) = m * 2 ^ q := by
  have hdatum := datum_sign_add_place false hc hfinite
  have hsign : f.sign false + f.place m q = f.place m q := Nat.zero_add _
  rw [hsign] at hdatum
  rw [valueOf, hdatum]

theorem valueOf_nonneg (f : Format) (b : ℕ) : 0 ≤ f.valueOf b := by
  unfold valueOf
  split
  · positivity
  · exact le_rfl

/-- Every value in the rounding interval of a number of the format is rounded to that number. -/
theorem round_of_roundsTo {m : ℕ} {q : ℤ} (hv : 0 < v) (h : f.RoundsTo v m q) :
    f.round v = min f.infinity (f.place m q) := by
  rw [← toNat_num_div_den hv.le] at h
  exact magnitude_of_roundsTo (toNat_num_pos hv) (Rat.den_pos _) h

/-- A number of the format is rounded to itself. -/
theorem round_valueOf (hb : b < f.infinity) : f.round (f.valueOf b) = b := by
  obtain ⟨m, q, hc, rfl, -⟩ := exists_place_of_lt hb
  rw [valueOf_place hc hb]
  rcases Nat.eq_zero_or_pos m with rfl | hm
  · simp [round, magnitude, place, hc.eq_leastExponent_of_zero]
  · have hsame : (m : ℚ) * 2 ^ q / 2 ^ q = m := by field_simp
    have hround : f.RoundsTo (m * 2 ^ q) m q := by
      refine ⟨hc, ?_, fun _ _ => ?_⟩
      · rw [hsame]
        exact isNearest_natCast m
      · rw [hsame]
        linarith
    rw [round_of_roundsTo (by positivity) hround, min_eq_right hb.le]

/-- Larger bits stand for larger numbers. -/
theorem valueOf_mono (hy : y < f.infinity) (h : x ≤ y) : f.valueOf x ≤ f.valueOf y := by
  by_contra hlt
  have hle := round_mono (f := f) (f.valueOf_nonneg y) (not_le.mp hlt).le
  rw [round_valueOf hy, round_valueOf (h.trans_lt hy)] at hle
  rw [le_antisymm h hle] at hlt
  exact hlt le_rfl

theorem valueOf_round_mono (hv : 0 ≤ v) (h : v ≤ w) (hw : f.round w < f.infinity) :
    f.valueOf (f.round v) ≤ f.valueOf (f.round w) :=
  valueOf_mono hw (round_mono hv h)

/-- The value that comes out of rounding, in terms of the value that went in. -/
theorem exists_valueOf_round_eq (hv : 0 < v) (hfinite : f.round v < f.infinity) :
    ∃ k : ℕ, IsNearest (v / 2 ^ f.target v) k ∧ f.valueOf (f.round v) = k * 2 ^ f.target v := by
  obtain ⟨k, m, q, hk, hc, hplace, hvalue⟩ :=
    exists_canonical_magnitude (toNat_num_pos hv) (Rat.den_pos _) hfinite
  have hround : f.round v = f.place m q := hplace
  rw [toNat_num_div_den hv.le] at hk hvalue
  refine ⟨k, hk, ?_⟩
  rw [hround] at hfinite ⊢
  rw [valueOf_place hc hfinite, hvalue]

/-- A number with few enough binary digits is not changed by rounding. -/
theorem valueOf_round_of_digits {a : ℕ} {j : ℤ} (ha : a < 2 ^ (f.fractionBits + 1))
    (hj : f.leastExponent ≤ j) (hfinite : f.round (a * 2 ^ j) < f.infinity) :
    f.valueOf (f.round (a * 2 ^ j)) = a * 2 ^ j := by
  rcases Nat.eq_zero_or_pos a with rfl | hpos
  · have hzero : f.round 0 = f.place 0 f.leastExponent := by
      simp [round, magnitude, place]
    have hc : f.Canonical 0 f.leastExponent :=
      ⟨by positivity, le_rfl, fun h => absurd h (lt_irrefl _)⟩
    simp only [Nat.cast_zero, zero_mul] at hfinite ⊢
    rw [hzero] at hfinite ⊢
    rw [valueOf_place hc hfinite, Nat.cast_zero, zero_mul]
  · have hv : (0 : ℚ) < a * 2 ^ j := by positivity
    obtain ⟨k, hk, hvalue⟩ := exists_valueOf_round_eq hv hfinite
    have htarget : f.target (a * 2 ^ j) ≤ j := by
      have hlt : (a : ℚ) * 2 ^ j < 2 ^ ((f.fractionBits + 1 : ℕ) + j) := by
        rw [zpow_add₀ two_ne_zero, zpow_natCast]
        gcongr
        exact_mod_cast ha
      have hlog := (Int.lt_zpow_iff_log_lt (b := 2) (by decide) hv).mp (by exact_mod_cast hlt)
      unfold target
      push_cast at hlog
      omega
    obtain ⟨i, hi⟩ := Int.eq_ofNat_of_zero_le (Int.sub_nonneg_of_le htarget)
    have hsplit : (a : ℚ) * 2 ^ j = (a * 2 ^ i : ℕ) * 2 ^ f.target (a * 2 ^ j) := by
      push_cast
      rw [mul_assoc, ← zpow_natCast, ← hi, ← zpow_add₀ two_ne_zero, sub_add_cancel]
    have hwhole : (a : ℚ) * 2 ^ j / 2 ^ f.target (a * 2 ^ j) = (a * 2 ^ i : ℕ) := by
      rw [div_eq_iff (by positivity)]
      exact hsplit
    rw [hwhole] at hk
    rw [hvalue, hk.unique (isNearest_natCast _), ← hsplit]

theorem valueOf_round_two_zpow {p : ℤ} (hp : f.leastExponent ≤ p)
    (hfinite : f.round (2 ^ p) < f.infinity) : f.valueOf (f.round (2 ^ p)) = 2 ^ p := by
  have hone : (1 : ℕ) < 2 ^ (f.fractionBits + 1) := Nat.one_lt_two_pow (Nat.succ_ne_zero _)
  rw [← one_mul ((2 : ℚ) ^ p), ← Nat.cast_one] at hfinite ⊢
  exact valueOf_round_of_digits hone hp hfinite

/-- Rounding does not go beyond a power of two. -/
theorem valueOf_round_le_two_zpow {p : ℤ} (hv : 0 ≤ v) (hp : f.leastExponent ≤ p)
    (hfinite : f.round (2 ^ p) < f.infinity) (h : v ≤ 2 ^ p) : f.valueOf (f.round v) ≤ 2 ^ p :=
  (valueOf_round_mono hv h hfinite).trans_eq (valueOf_round_two_zpow hp hfinite)

/-- Rounding does not fall below a power of two. -/
theorem two_zpow_le_valueOf_round {p : ℤ} (hp : f.leastExponent ≤ p)
    (hfinite : f.round v < f.infinity) (h : 2 ^ p ≤ v) : 2 ^ p ≤ f.valueOf (f.round v) := by
  have hpow := (round_mono (f := f) (by positivity) h).trans_lt hfinite
  rw [← valueOf_round_two_zpow hp hpow]
  exact valueOf_round_mono (by positivity) h hfinite

/-! ## Products and quotients -/

/-- A product is the product of the values, rounded. -/
theorem times_eq (hx : x < f.infinity) (hy : y < f.infinity) :
    f.times x y = f.round (f.valueOf x * f.valueOf y) := by
  obtain ⟨m, q, hm, rfl, hxdatum⟩ := exists_place_of_lt hx
  obtain ⟨n, p, hn, rfl, hydatum⟩ := exists_place_of_lt hy
  unfold times
  rw [hxdatum, hydatum]
  dsimp only
  have hquotient := scaled_quotient (m * n) 1 (-(q + p))
  rw [neg_neg, one_mul, Nat.cast_one, div_one, zpow_neg, div_inv_eq_mul, zpow_add₀ two_ne_zero]
    at hquotient
  rw [magnitude_eq_round _ (twoPow_pos _), hquotient, valueOf_place hm hx, valueOf_place hn hy]
  congr 1
  push_cast
  ring

/-- A quotient is the quotient of the values, rounded. -/
theorem dividedBy_eq (hx : x < f.infinity) (hy : y < f.infinity) (hpos : 0 < f.valueOf y) :
    f.dividedBy x y = f.round (f.valueOf x / f.valueOf y) := by
  obtain ⟨m, q, hm, rfl, hxdatum⟩ := exists_place_of_lt hx
  obtain ⟨n, p, hn, rfl, hydatum⟩ := exists_place_of_lt hy
  rw [valueOf_place hn hy] at hpos
  have hnpos : 0 < n := by
    have hcast : (0 : ℚ) < n := (mul_pos_iff_of_pos_right (by positivity)).mp hpos
    exact_mod_cast hcast
  unfold dividedBy
  rw [hxdatum, hydatum]
  dsimp only
  have hquotient := scaled_quotient m n (p - q)
  rw [neg_sub, zpow_sub₀ two_ne_zero] at hquotient
  rw [magnitude_eq_round _ (Nat.mul_pos hnpos (twoPow_pos _)), hquotient, valueOf_place hm hx,
    valueOf_place hn hy]
  congr 1
  field_simp

/-- A quotient by at least one is no larger than what is divided. -/
theorem dividedBy_le (hx : x < f.infinity) (hy : y < f.infinity) (hone : 1 ≤ f.valueOf y) :
    f.dividedBy x y ≤ x := by
  rw [dividedBy_eq hx hy (by linarith)]
  have hnonneg := f.valueOf_nonneg x
  calc
    f.round (f.valueOf x / f.valueOf y) ≤ f.round (f.valueOf x) :=
      round_mono (div_nonneg hnonneg (by linarith)) (div_le_self hnonneg hone)
    _ = x := round_valueOf hx

end Format
end Number
end DesignPages
