import DesignPages.Number.Binary
import Mathlib.Algebra.Order.Field.Power
import Mathlib.Data.Int.Log
import Mathlib.Data.Rat.Floor
import Mathlib.Tactic.FieldSimp
import Mathlib.Tactic.Linarith
import Mathlib.Tactic.Ring
import Mathlib.Tactic.SplitIfs

/-!
# Rounding into a binary format

The quotient `n / d` is rounded to the nearest number of a format.  This module describes the result
through exact values: it depends on the quotient alone, it grows with it, and every quotient in the
rounding interval of a number of the format gives that number back.
-/

namespace DesignPages
namespace Number

@[simp] theorem twoPow_cast (n : ℕ) : (twoPow n : ℚ) = 2 ^ n := by
  rw [show twoPow n = 2 ^ n from rfl]
  norm_cast

theorem twoPow_pos (n : ℕ) : 0 < twoPow n :=
  Nat.two_pow_pos n

/-! ## Whole numbers -/

/-- The whole number nearest to `x`, and the even one where two are equally near. -/
def IsNearest (x : ℚ) (k : ℕ) : Prop :=
  |x - k| < 1 / 2 ∨ (|x - k| = 1 / 2 ∧ k % 2 = 0)

theorem IsNearest.abs_sub_le {x : ℚ} {k : ℕ} (h : IsNearest x k) : |x - k| ≤ 1 / 2 := by
  rcases h with h | ⟨h, -⟩
  · exact h.le
  · exact h.le

theorem IsNearest.le_of_le {x y : ℚ} {k j : ℕ} (hx : IsNearest x k) (hy : IsNearest y j)
    (hxy : x ≤ y) :
    k ≤ j := by
  by_contra hlt
  have hstep : (j : ℚ) + 1 ≤ k := by exact_mod_cast Nat.lt_of_not_le hlt
  have hxk := abs_le.mp hx.abs_sub_le
  have hyj := abs_le.mp hy.abs_sub_le
  -- Both quotients lie halfway between `j` and `k`, so that both of these would be even.
  have hxhalf : x - k = -(1 / 2) := by linarith
  have hyhalf : y - j = 1 / 2 := by linarith
  have hk : k % 2 = 0 := by
    rcases hx with h | ⟨-, h⟩
    · rw [hxhalf] at h
      norm_num at h
    · exact h
  have hj : j % 2 = 0 := by
    rcases hy with h | ⟨-, h⟩
    · rw [hyhalf] at h
      norm_num at h
    · exact h
  have hnext : k = j + 1 := by
    have hcast : (k : ℚ) = j + 1 := by linarith
    exact_mod_cast hcast
  omega

theorem IsNearest.unique {x : ℚ} {k j : ℕ} (hk : IsNearest x k) (hj : IsNearest x j) : k = j :=
  Nat.le_antisymm (hk.le_of_le hj le_rfl) (hj.le_of_le hk le_rfl)

theorem isNearest_natCast (k : ℕ) : IsNearest k k := by
  left
  norm_num

theorem isNearest_of_lower {q : ℕ} {t : ℚ} (ht : 0 ≤ t)
    (h : t < 1 / 2 ∨ (t = 1 / 2 ∧ q % 2 = 0)) : IsNearest (q + t) q := by
  rw [IsNearest, add_sub_cancel_left, abs_of_nonneg ht]
  exact h

theorem isNearest_of_upper {q : ℕ} {t : ℚ} (ht : t < 1)
    (h : 1 / 2 < t ∨ (t = 1 / 2 ∧ q % 2 = 1)) : IsNearest (q + t) (q + 1) := by
  have hupper : t - 1 < 0 := by linarith
  have hdist : |(q : ℚ) + t - (q + 1 : ℕ)| = 1 - t := by
    push_cast
    rw [add_sub_add_left_eq_sub, abs_of_neg hupper]
    ring
  rw [IsNearest, hdist]
  rcases h with h | ⟨h, hodd⟩
  · left
    linarith
  · right
    exact ⟨by rw [h]; norm_num, by omega⟩

theorem quotient_add_rest (n : ℕ) {d : ℕ} (hd : 0 < d) :
    (n : ℚ) / d = (n / d : ℕ) + (n % d : ℕ) / d := by
  have hdq : (0 : ℚ) < d := by exact_mod_cast hd
  have hn : (n : ℚ) = d * (n / d : ℕ) + (n % d : ℕ) := by
    exact_mod_cast (Nat.div_add_mod n d).symm
  rw [hn]
  field_simp

theorem rest_lt_half_iff (r : ℕ) {d : ℕ} (hd : 0 < d) : (r : ℚ) / d < 1 / 2 ↔ 2 * r < d := by
  have hdq : (0 : ℚ) < d := by exact_mod_cast hd
  rw [div_lt_iff₀ hdq, ← Nat.cast_lt (α := ℚ), Nat.cast_mul]
  constructor
  · intro h
    push_cast
    linarith
  · intro h
    push_cast at h
    linarith

theorem rest_eq_half_iff (r : ℕ) {d : ℕ} (hd : 0 < d) : (r : ℚ) / d = 1 / 2 ↔ 2 * r = d := by
  have hdq : (0 : ℚ) < d := by exact_mod_cast hd
  rw [div_eq_iff hdq.ne', ← Nat.cast_inj (R := ℚ), Nat.cast_mul]
  constructor
  · intro h
    push_cast
    linarith
  · intro h
    push_cast at h
    linarith

theorem roundToEven_isNearest (n : ℕ) {d : ℕ} (hd : 0 < d) :
    IsNearest ((n : ℚ) / d) (roundToEven n d) := by
  have hlower : (0 : ℚ) ≤ (n % d : ℕ) / d := by positivity
  have hupper : ((n % d : ℕ) : ℚ) / d < 1 := by
    rw [div_lt_one (by exact_mod_cast hd)]
    exact_mod_cast Nat.mod_lt n hd
  unfold roundToEven
  dsimp only
  rw [quotient_add_rest n hd]
  split_ifs with h
  · rw [← rest_lt_half_iff (n % d) hd, ← rest_eq_half_iff (n % d) hd] at h
    exact isNearest_of_lower hlower h
  · rw [← rest_lt_half_iff (n % d) hd, ← rest_eq_half_iff (n % d) hd] at h
    obtain ⟨hnot, heven⟩ := not_or.mp h
    apply isNearest_of_upper hupper
    rcases (not_lt.mp hnot).lt_or_eq with hgt | heq
    · exact Or.inl hgt
    · have hodd : ¬n / d % 2 = 0 := fun hzero => heven ⟨heq.symm, hzero⟩
      exact Or.inr ⟨heq.symm, by omega⟩

/-! ## Powers of two -/

/-- Both parts of a quotient scaled by a power of two, as whole numbers. -/
theorem scaled_quotient (n d : ℕ) (e : ℤ) :
    ((n * twoPow (-e).toNat : ℕ) : ℚ) / (d * twoPow e.toNat : ℕ) = n / d / 2 ^ e := by
  push_cast
  rw [twoPow_cast, twoPow_cast]
  rcases le_total 0 e with h | h
  · obtain ⟨k, rfl⟩ := Int.eq_ofNat_of_zero_le h
    rw [show (-(k : ℤ)).toNat = 0 by omega, Int.toNat_natCast, zpow_natCast]
    rw [pow_zero, mul_one, div_div]
  · obtain ⟨k, hk⟩ := Int.eq_ofNat_of_zero_le (Int.neg_nonneg.mpr h)
    obtain rfl : e = -(k : ℤ) := by omega
    rw [neg_neg, Int.toNat_natCast, show (-(k : ℤ)).toNat = 0 by omega, zpow_neg, zpow_natCast]
    rw [pow_zero, mul_one, div_inv_eq_mul, div_mul_eq_mul_div]

theorem log2_bounds {n : ℕ} (hn : 0 < n) :
    (2 : ℚ) ^ (Nat.log2 n : ℤ) ≤ n ∧ (n : ℚ) < 2 ^ ((Nat.log2 n : ℤ) + 1) := by
  constructor
  · rw [zpow_natCast]
    exact_mod_cast Nat.log2_self_le hn.ne'
  · have hlt : (n : ℚ) < 2 ^ (Nat.log2 n + 1) := by exact_mod_cast Nat.lt_log2_self
    exact_mod_cast hlt

/-- Between two neighbouring powers the logarithm is known. -/
theorem eq_log_of_bounds {b : ℕ} (hb : 1 < b) {v : ℚ} {k : ℤ} (hv : 0 < v)
    (hlow : (b : ℚ) ^ k ≤ v) (hhigh : v < (b : ℚ) ^ (k + 1)) : k = Int.log b v := by
  have hle := (Int.zpow_le_iff_le_log hb hv).mp hlow
  have hlt := (Int.lt_zpow_iff_log_lt hb hv).mp hhigh
  omega

/-- The logarithms of both parts of a quotient give its logarithm up to one. -/
theorem log2_quotient_bounds {n d : ℕ} (hn : 0 < n) (hd : 0 < d) :
    (2 : ℚ) ^ ((Nat.log2 n : ℤ) - Nat.log2 d - 1) ≤ n / d ∧
      (n : ℚ) / d < 2 ^ ((Nat.log2 n : ℤ) - Nat.log2 d + 1) := by
  have hdq : (0 : ℚ) < d := by exact_mod_cast hd
  obtain ⟨hnlow, hnhigh⟩ := log2_bounds hn
  obtain ⟨hdlow, hdhigh⟩ := log2_bounds hd
  set guess : ℤ := (Nat.log2 n : ℤ) - Nat.log2 d with hguess
  constructor
  · rw [le_div_iff₀ hdq]
    calc
      (2 : ℚ) ^ (guess - 1) * d ≤ 2 ^ (guess - 1) * 2 ^ ((Nat.log2 d : ℤ) + 1) := by gcongr
      _ = 2 ^ (Nat.log2 n : ℤ) := by
        rw [← zpow_add₀ two_ne_zero]
        congr 1
        omega
      _ ≤ n := hnlow
  · rw [div_lt_iff₀ hdq]
    calc
      (n : ℚ) < 2 ^ ((Nat.log2 n : ℤ) + 1) := hnhigh
      _ = 2 ^ (guess + 1) * 2 ^ (Nat.log2 d : ℤ) := by
        rw [← zpow_add₀ two_ne_zero]
        congr 1
        omega
      _ ≤ 2 ^ (guess + 1) * d := by gcongr

theorem floorLog_eq_log {n d : ℕ} (hn : 0 < n) (hd : 0 < d) :
    floorLog n d = Int.log 2 ((n : ℚ) / d) := by
  have hnq : (0 : ℚ) < n := by exact_mod_cast hn
  have hdq : (0 : ℚ) < d := by exact_mod_cast hd
  have hpos : (0 : ℚ) < (n : ℚ) / d := by positivity
  obtain ⟨hlow, hhigh⟩ := log2_quotient_bounds hn hd
  set guess : ℤ := (Nat.log2 n : ℤ) - Nat.log2 d with hguess
  have hcompare : n * twoPow (-guess).toNat < d * twoPow guess.toNat ↔
      (n : ℚ) / d < 2 ^ guess := by
    have hscaled : (0 : ℚ) < (d * twoPow guess.toNat : ℕ) := by
      exact_mod_cast Nat.mul_pos hd (twoPow_pos _)
    rw [← Nat.cast_lt (α := ℚ), ← div_lt_one hscaled, scaled_quotient,
      div_lt_one (by positivity)]
  unfold floorLog
  dsimp only
  rw [← hguess]
  split_ifs with h
  · exact eq_log_of_bounds (by decide) hpos hlow (by rw [sub_add_cancel]; exact hcompare.mp h)
  · exact eq_log_of_bounds (by decide) hpos (not_lt.mp (mt hcompare.mpr h)) hhigh

/-! ## Numbers of a format -/

namespace Format

/-- The exponent with which a value is rounded. -/
def target (f : Format) (v : ℚ) : ℤ :=
  max f.leastExponent (Int.log 2 v - f.fractionBits)

/-- The bits of a number of the format, without the sign. -/
def place (f : Format) (m : ℕ) (q : ℤ) : ℕ :=
  (q - f.leastExponent).toNat * twoPow f.fractionBits + m

/-- The numbers of the format: the significand has all its digits unless the exponent is the least
one. -/
structure Canonical (f : Format) (m : ℕ) (q : ℤ) : Prop where
  fits : m < 2 ^ (f.fractionBits + 1)
  least_le : f.leastExponent ≤ q
  full : f.leastExponent < q → 2 ^ f.fractionBits ≤ m

/-- The values that are rounded to a number of the format.  Below a power of two the next number is
only half as far away. -/
structure RoundsTo (f : Format) (v : ℚ) (m : ℕ) (q : ℤ) : Prop extends Canonical f m q where
  nearest : IsNearest (v / 2 ^ q) m
  above : m = 2 ^ f.fractionBits → f.leastExponent < q → (m : ℚ) - 1 / 4 ≤ v / 2 ^ q

variable {f : Format}

/-- Zero has the least exponent. -/
theorem Canonical.eq_leastExponent_of_zero {q : ℤ} (h : f.Canonical 0 q) : q = f.leastExponent := by
  by_contra hne
  have hfull := h.full (lt_of_le_of_ne h.least_le (Ne.symm hne))
  exact absurd hfull (by simp)

theorem targetExponent_eq_target {n d : ℕ} (hn : 0 < n) (hd : 0 < d) :
    f.targetExponent n d = f.target (n / d) := by
  rw [targetExponent, target, floorLog_eq_log hn hd]

theorem leastExponent_le_target (v : ℚ) : f.leastExponent ≤ f.target v :=
  le_max_left _ _

theorem target_mono {v w : ℚ} (hv : 0 < v) (h : v ≤ w) : f.target v ≤ f.target w := by
  have hlog := Int.log_mono_right (b := 2) hv h
  unfold target
  omega

/-- The value has no more digits than the significand has room for. -/
theorem div_two_zpow_target_lt {v : ℚ} (hv : 0 < v) :
    v / 2 ^ f.target v < 2 ^ (f.fractionBits + 1) := by
  rw [div_lt_iff₀ (by positivity), ← zpow_natCast, ← zpow_add₀ two_ne_zero]
  have hlog : Int.log 2 v < ((f.fractionBits + 1 : ℕ) : ℤ) + f.target v := by
    unfold target
    omega
  exact_mod_cast (Int.lt_zpow_iff_log_lt (b := 2) (by decide) hv).mpr hlog

/-- Above the least exponent the value has as many digits as the significand. -/
theorem le_div_two_zpow_target {v : ℚ} (hv : 0 < v) (h : f.leastExponent < f.target v) :
    2 ^ f.fractionBits ≤ v / 2 ^ f.target v := by
  rw [le_div_iff₀ (by positivity), ← zpow_natCast, ← zpow_add₀ two_ne_zero]
  have hlog : (f.fractionBits : ℤ) + f.target v ≤ Int.log 2 v := by
    unfold target at h ⊢
    omega
  exact_mod_cast (Int.zpow_le_iff_le_log (b := 2) (by decide) hv).mpr hlog

theorem nearest_target_bounds {v : ℚ} {k : ℕ} (hv : 0 < v)
    (hk : IsNearest (v / 2 ^ f.target v) k) :
    k ≤ 2 ^ (f.fractionBits + 1) ∧ (f.leastExponent < f.target v → 2 ^ f.fractionBits ≤ k) := by
  constructor
  · apply hk.le_of_le (isNearest_natCast _)
    push_cast
    exact (div_two_zpow_target_lt hv).le
  · intro h
    apply (isNearest_natCast _).le_of_le hk
    push_cast
    exact le_div_two_zpow_target hv h

/-- What rounding gives, in terms of the quotient alone. -/
theorem exists_magnitude_eq {n d : ℕ} (hn : 0 < n) (hd : 0 < d) :
    ∃ k, IsNearest ((n : ℚ) / d / 2 ^ f.target (n / d)) k ∧
      f.magnitude n d = min f.infinity (f.place k (f.target (n / d))) := by
  refine ⟨roundToEven (n * twoPow (-f.target (n / d)).toNat)
    (d * twoPow (f.target (n / d)).toNat), ?_, ?_⟩
  · rw [← scaled_quotient]
    exact roundToEven_isNearest _ (Nat.mul_pos hd (twoPow_pos _))
  · rw [magnitude, if_neg hn.ne', targetExponent_eq_target hn hd]
    rfl

theorem place_le_place {k j : ℕ} {t s : ℤ} (hleast : f.leastExponent ≤ t)
    (hts : t ≤ s) (hk : k ≤ 2 ^ (f.fractionBits + 1))
    (hsame : t = s → k ≤ j) (hbelow : t < s → 2 ^ f.fractionBits ≤ j) :
    f.place k t ≤ f.place j s := by
  unfold place
  rcases hts.lt_or_eq with h | rfl
  · obtain ⟨a, ha⟩ := Int.eq_ofNat_of_zero_le (Int.sub_nonneg_of_le hleast)
    obtain ⟨b, hb⟩ := Int.eq_ofNat_of_zero_le (Int.sub_nonneg_of_le (hleast.trans hts))
    have hstep : a + 1 ≤ b := by omega
    have hj := hbelow h
    rw [ha, hb, Int.toNat_natCast, Int.toNat_natCast]
    calc
      a * twoPow f.fractionBits + k ≤ a * twoPow f.fractionBits + 2 * twoPow f.fractionBits := by
        rw [show 2 * twoPow f.fractionBits = 2 ^ (f.fractionBits + 1) from (pow_succ' 2 _).symm]
        omega
      _ = (a + 1) * twoPow f.fractionBits + twoPow f.fractionBits := by ring
      _ ≤ b * twoPow f.fractionBits + j := by
        exact Nat.add_le_add (Nat.mul_le_mul_right _ hstep) hj
  · have hkj := hsame rfl
    omega

/-- Rounding grows with the quotient. -/
theorem magnitude_mono {n d n' d' : ℕ} (hd : 0 < d) (hd' : 0 < d')
    (h : (n : ℚ) / d ≤ n' / d') :
    f.magnitude n d ≤ f.magnitude n' d' := by
  rcases Nat.eq_zero_or_pos n with rfl | hn
  · simp [magnitude]
  have hdq : (0 : ℚ) < d := by exact_mod_cast hd
  have hdq' : (0 : ℚ) < d' := by exact_mod_cast hd'
  have hnq : (0 : ℚ) < n := by exact_mod_cast hn
  have hv : (0 : ℚ) < n / d := by positivity
  have hw : (0 : ℚ) < n' / d' := hv.trans_le h
  have hn' : 0 < n' := by
    have hcast : (0 : ℚ) < n' := (div_pos_iff_of_pos_right hdq').mp hw
    exact_mod_cast hcast
  obtain ⟨k, hk, hleft⟩ := exists_magnitude_eq (f := f) hn hd
  obtain ⟨j, hj, hright⟩ := exists_magnitude_eq (f := f) hn' hd'
  rw [hleft, hright]
  apply min_le_min_left
  apply place_le_place (leastExponent_le_target _) (target_mono hv h) (nearest_target_bounds hv hk).1
  · intro heq
    rw [← heq] at hj
    exact hk.le_of_le hj (by gcongr)
  · intro hlt
    exact (nearest_target_bounds hw hj).2 ((leastExponent_le_target _).trans_lt hlt)

theorem RoundsTo.target_le {v : ℚ} {m : ℕ} {q : ℤ} (hv : 0 < v) (h : f.RoundsTo v m q) :
    f.target v ≤ q := by
  have hup : v / 2 ^ q < 2 ^ (f.fractionBits + 1) := by
    have hbound := (abs_le.mp h.nearest.abs_sub_le).2
    have hfits : (m : ℚ) + 1 ≤ 2 ^ (f.fractionBits + 1) := by exact_mod_cast h.fits
    linarith
  rw [div_lt_iff₀ (by positivity), ← zpow_natCast, ← zpow_add₀ two_ne_zero] at hup
  have hlog := (Int.lt_zpow_iff_log_lt (b := 2) (by decide) hv).mp (by exact_mod_cast hup)
  have hleast := h.least_le
  unfold target
  omega

/-- A value that is rounded with a smaller exponent lies right below a power of two. -/
theorem RoundsTo.of_target_lt {v : ℚ} {m : ℕ} {q : ℤ} (hv : 0 < v) (h : f.RoundsTo v m q)
    (hlt : f.target v < q) :
    m = 2 ^ f.fractionBits ∧ f.target v = q - 1 ∧
      IsNearest (v / 2 ^ (q - 1)) (2 ^ (f.fractionBits + 1)) := by
  have hleast : f.leastExponent < q := (leastExponent_le_target v).trans_lt hlt
  have hbelow : v / 2 ^ q < 2 ^ f.fractionBits := by
    rw [div_lt_iff₀ (by positivity), ← zpow_natCast, ← zpow_add₀ two_ne_zero]
    have hlog : Int.log 2 v < (f.fractionBits : ℤ) + q := by
      unfold target at hlt
      omega
    exact_mod_cast (Int.lt_zpow_iff_log_lt (b := 2) (by decide) hv).mpr hlog
  have hm : m = 2 ^ f.fractionBits := by
    have hbound := (abs_le.mp h.nearest.abs_sub_le).1
    have hcast : (m : ℚ) < (2 ^ f.fractionBits : ℕ) + 1 := by
      push_cast
      linarith
    have hlt' : m < 2 ^ f.fractionBits + 1 := by exact_mod_cast hcast
    have hfull := h.full hleast
    omega
  have habove := h.above hm hleast
  rw [hm] at habove
  push_cast at habove
  have hone : (1 : ℚ) ≤ 2 ^ f.fractionBits := one_le_pow₀ (by norm_num)
  have hdouble : v / 2 ^ (q - 1) = 2 * (v / 2 ^ q) := by
    rw [zpow_sub_one₀ two_ne_zero]
    field_simp
  refine ⟨hm, ?_, ?_⟩
  · have hlow : (2 : ℚ) ^ ((f.fractionBits : ℤ) + (q - 1)) ≤ v := by
      rw [zpow_add₀ two_ne_zero, ← le_div_iff₀ (by positivity), hdouble, zpow_natCast]
      linarith
    have hlog := (Int.zpow_le_iff_le_log (b := 2) (by decide) hv).mp (by exact_mod_cast hlow)
    have hge : q - 1 ≤ f.target v := by
      unfold target
      omega
    omega
  · have hdist : |v / 2 ^ (q - 1) - (2 ^ (f.fractionBits + 1) : ℕ)| ≤ 1 / 2 := by
      rw [hdouble, abs_le]
      push_cast
      rw [pow_succ]
      constructor <;> linarith
    rcases hdist.lt_or_eq with hless | htie
    · exact Or.inl hless
    · exact Or.inr ⟨htie, by rw [pow_succ]; omega⟩

/-- Every value in the rounding interval of a number of the format is rounded to that number. -/
theorem magnitude_of_roundsTo {n d m : ℕ} {q : ℤ} (hn : 0 < n) (hd : 0 < d)
    (h : f.RoundsTo (n / d) m q) :
    f.magnitude n d = min f.infinity (f.place m q) := by
  have hv : (0 : ℚ) < n / d := by
    have hnq : (0 : ℚ) < n := by exact_mod_cast hn
    have hdq : (0 : ℚ) < d := by exact_mod_cast hd
    positivity
  obtain ⟨k, hk, heq⟩ := exists_magnitude_eq (f := f) hn hd
  rw [heq]
  congr 1
  rcases (h.target_le hv).lt_or_eq with hlt | hsame
  · obtain ⟨hm, htarget, hnearest⟩ := h.of_target_lt hv hlt
    rw [htarget] at hk ⊢
    rw [hk.unique hnearest, hm]
    have hleast : f.leastExponent < q := (leastExponent_le_target _).trans_lt hlt
    obtain ⟨a, ha⟩ := Int.eq_ofNat_of_zero_le (show 0 ≤ q - 1 - f.leastExponent by omega)
    have hq : (q - f.leastExponent).toNat = a + 1 := by omega
    rw [place, place, ha, hq, Int.toNat_natCast, show twoPow f.fractionBits = 2 ^ f.fractionBits
      from rfl]
    ring
  · rw [hsame] at hk ⊢
    rw [hk.unique h.nearest]

/-! ## The number that comes out -/

/-- A quotient is rounded to a number of the format, unless it is beyond the largest one. -/
theorem exists_canonical_magnitude {n d : ℕ} (hn : 0 < n) (hd : 0 < d)
    (hfinite : f.magnitude n d < f.infinity) :
    ∃ k m q, IsNearest ((n : ℚ) / d / 2 ^ f.target (n / d)) k ∧ f.Canonical m q ∧
      f.magnitude n d = f.place m q ∧ (m : ℚ) * 2 ^ q = k * 2 ^ f.target (n / d) := by
  have hv : (0 : ℚ) < n / d := by
    have hnq : (0 : ℚ) < n := by exact_mod_cast hn
    have hdq : (0 : ℚ) < d := by exact_mod_cast hd
    positivity
  obtain ⟨k, hk, heq⟩ := exists_magnitude_eq (f := f) hn hd
  obtain ⟨hupper, hlower⟩ := nearest_target_bounds hv hk
  have hplace : f.magnitude n d = f.place k (f.target (n / d)) := by
    rw [heq] at hfinite ⊢
    exact min_eq_right ((min_lt_iff.mp hfinite).resolve_left (lt_irrefl _)).le
  rcases hupper.lt_or_eq with hlt | hfull
  · exact ⟨k, k, _, hk, ⟨hlt, leastExponent_le_target _, hlower⟩, hplace, rfl⟩
  · have hleast := leastExponent_le_target (f := f) ((n : ℚ) / d)
    refine ⟨k, 2 ^ f.fractionBits, f.target (n / d) + 1, hk, ⟨?_, by omega, fun _ => le_rfl⟩, ?_, ?_⟩
    · exact Nat.pow_lt_pow_right (by decide) (Nat.lt_succ_self _)
    · obtain ⟨a, ha⟩ := Int.eq_ofNat_of_zero_le (Int.sub_nonneg_of_le hleast)
      have hnext : (f.target (n / d) + 1 - f.leastExponent).toNat = a + 1 := by omega
      rw [hplace, place, place, ha, hnext, Int.toNat_natCast, hfull,
        show twoPow f.fractionBits = 2 ^ f.fractionBits from rfl]
      ring
    · rw [hfull, zpow_add_one₀ two_ne_zero]
      push_cast
      ring

/-- A value that is rounded to a number other than zero is not far below the least one. -/
theorem RoundsTo.le_value {v : ℚ} {m : ℕ} {q : ℤ} (hm : 0 < m) (h : f.RoundsTo v m q) :
    2 ^ (f.leastExponent - 1) ≤ v := by
  have hone : (1 : ℚ) ≤ m := by exact_mod_cast hm
  have hbound := (abs_le.mp h.nearest.abs_sub_le).1
  have hhalf : (1 : ℚ) / 2 ≤ v / 2 ^ q := by linarith
  have hpow : (2 : ℚ) ^ f.leastExponent ≤ 2 ^ q := zpow_le_zpow_right₀ (by norm_num) h.least_le
  calc
    (2 : ℚ) ^ (f.leastExponent - 1) = 1 / 2 * 2 ^ f.leastExponent := by
      rw [zpow_sub_one₀ two_ne_zero]
      ring
    _ ≤ v / 2 ^ q * 2 ^ q := mul_le_mul hhalf hpow (by positivity) (by linarith)
    _ = v := by field_simp

/-- A value that is rounded to a number other than zero is at most twice as large. -/
theorem RoundsTo.value_le {v : ℚ} {m : ℕ} {q : ℤ} (hm : 0 < m) (h : f.RoundsTo v m q) :
    v ≤ 2 * (m * 2 ^ q) := by
  have hone : (1 : ℚ) ≤ m := by exact_mod_cast hm
  have hbound := (abs_le.mp h.nearest.abs_sub_le).2
  calc
    v = v / 2 ^ q * 2 ^ q := by field_simp
    _ ≤ 2 * m * 2 ^ q := by
      gcongr
      linarith
    _ = 2 * (m * 2 ^ q) := mul_assoc _ _ _

/-- A value that is rounded to a finite number is not far above the greatest one. -/
theorem RoundsTo.value_lt {v : ℚ} {m : ℕ} {q : ℤ} (h : f.RoundsTo v m q)
    (hfinite : f.place m q < f.infinity) :
    v < 2 ^ (f.leastExponent + f.specialExponent + f.fractionBits + 1) := by
  have hfits : (m : ℚ) + 1 ≤ 2 ^ (f.fractionBits + 1) := by exact_mod_cast h.fits
  have hbound := (abs_le.mp h.nearest.abs_sub_le).2
  have hq : q ≤ f.leastExponent + f.specialExponent := by
    have hlt : (q - f.leastExponent).toNat * twoPow f.fractionBits <
        f.specialExponent * twoPow f.fractionBits := by
      exact (Nat.le_add_right _ m).trans_lt hfinite
    have hle := Nat.lt_of_mul_lt_mul_right hlt
    omega
  calc
    v = v / 2 ^ q * 2 ^ q := by field_simp
    _ < 2 ^ (f.fractionBits + 1) * 2 ^ q := by
      gcongr
      linarith
    _ ≤ 2 ^ (f.fractionBits + 1) * 2 ^ (f.leastExponent + f.specialExponent) := by
      gcongr
      norm_num
    _ = 2 ^ (f.leastExponent + f.specialExponent + f.fractionBits + 1) := by
      rw [← zpow_natCast, ← zpow_add₀ two_ne_zero]
      congr 1
      push_cast
      ring

end Format
end Number
end DesignPages
