import DesignPages.Number.Decimal
import DesignPages.Proofs.Number.Rounding
import Mathlib.Data.Nat.Cast.Order.Field
import Mathlib.Tactic.SplitIfs

/-!
# Shortest decimals read back

The decimal that is found for a number of a format lies in the rounding interval of that number, so
that rounding it gives the number back.  The search ends in time because a decimal grid that is finer
than a quarter of the last binary place has a point there.
-/

namespace DesignPages
namespace Number

@[simp] theorem tenPow_cast (n : ℕ) : (tenPow n : ℚ) = 10 ^ n := by
  rw [show tenPow n = 10 ^ n from rfl]
  norm_cast

theorem tenPow_pos (n : ℕ) : 0 < tenPow n :=
  Nat.pow_pos (by decide)

theorem ten_pow_toNat (e : ℤ) : (10 : ℚ) ^ e.toNat = 10 ^ e * 10 ^ (-e).toNat := by
  rw [← zpow_natCast, ← zpow_natCast, ← zpow_add₀ (by norm_num)]
  congr 1
  omega

theorem digitCount_bounds {n : ℕ} (hn : 0 < n) :
    1 ≤ digitCount n ∧ 10 ^ (digitCount n - 1) ≤ n ∧ n < 10 ^ digitCount n := by
  have hpos : 0 < digitCount n := Nat.length_toDigits_pos
  refine ⟨hpos, ?_, (Nat.length_toDigits_le_iff (by decide) hpos).mp le_rfl⟩
  rcases Nat.eq_or_lt_of_le hpos with h | h
  · rw [← h]
    exact hn
  · by_contra hlt
    have hle := (Nat.length_toDigits_le_iff (b := 10) (by decide) (Nat.sub_pos_of_lt h)).mpr
      (not_le.mp hlt)
    change digitCount n ≤ digitCount n - 1 at hle
    omega

/-- The exact value of a decimal. -/
def Decimal.value (d : Decimal) : ℚ :=
  d.digits * 10 ^ d.exponent

/-! ## The interval -/

namespace Interval

/-- The unit of the ends of an interval. -/
def unit (i : Interval) : ℚ :=
  i.numerator / i.denominator

variable {i : Interval}

theorem scaled_cast (hden : 0 < i.denominator) (k : ℕ) (e : ℤ) :
    (i.scaled k e : ℚ) = k * i.unit * (i.denominator * 10 ^ (-e).toNat) := by
  have hdenq : (i.denominator : ℚ) ≠ 0 := by exact_mod_cast hden.ne'
  unfold scaled unit
  push_cast
  rw [tenPow_cast]
  field_simp

theorem scaledDigits_cast (digits : ℕ) (e : ℤ) :
    (i.scaledDigits digits e : ℚ) =
      (⟨digits, e⟩ : Decimal).value * (i.denominator * 10 ^ (-e).toNat) := by
  unfold scaledDigits Decimal.value
  push_cast
  rw [tenPow_cast, ten_pow_toNat]
  ring

/-- The integers that are compared stand for the exact values. -/
theorem holds_iff (hden : 0 < i.denominator) (d : Decimal) :
    i.holds d = true ↔
      (i.below * i.unit < d.value ∧ d.value < i.above * i.unit) ∨
        (i.closed = true ∧ (d.value = i.below * i.unit ∨ d.value = i.above * i.unit)) := by
  have hscale : (0 : ℚ) < i.denominator * 10 ^ (-d.exponent).toNat := by
    have hdenq : (0 : ℚ) < i.denominator := by exact_mod_cast hden
    positivity
  unfold holds
  simp only [Bool.or_eq_true, Bool.and_eq_true, decide_eq_true_eq, beq_iff_eq]
  rw [← Nat.cast_lt (α := ℚ), ← Nat.cast_lt (α := ℚ), ← Nat.cast_inj (R := ℚ),
    ← Nat.cast_inj (R := ℚ), scaledDigits_cast, scaled_cast hden, scaled_cast hden,
    mul_lt_mul_iff_left₀ hscale, mul_lt_mul_iff_left₀ hscale, mul_left_inj' hscale.ne',
    mul_left_inj' hscale.ne']

/-- The point of a grid right below the value. -/
def gridPoint (i : Interval) (e : ℤ) : ℕ :=
  i.scaled i.value e / i.scaledDigits 1 e

/-- What is found on a grid is a point next to the value that reads back, if there is one. -/
theorem onGrid_cases (i : Interval) (tie : Tie) (e : ℤ) :
    (i.holds ⟨i.gridPoint e, e⟩ = true ∧ i.onGrid tie e = some ⟨i.gridPoint e, e⟩) ∨
      (i.holds ⟨i.gridPoint e + 1, e⟩ = true ∧ i.onGrid tie e = some ⟨i.gridPoint e + 1, e⟩) ∨
      (i.holds ⟨i.gridPoint e, e⟩ = false ∧ i.onGrid tie e = none) := by
  unfold onGrid
  dsimp only
  rw [← gridPoint]
  cases hlow : i.holds ⟨i.gridPoint e, e⟩ with
  | false =>
      cases hhigh : i.holds ⟨i.gridPoint e + 1, e⟩ with
      | false => exact Or.inr (Or.inr ⟨rfl, rfl⟩)
      | true => exact Or.inr (Or.inl ⟨rfl, rfl⟩)
  | true =>
      cases hhigh : i.holds ⟨i.gridPoint e + 1, e⟩ with
      | false => exact Or.inl ⟨rfl, rfl⟩
      | true =>
          cases tie with
          | up =>
              dsimp only
              split_ifs
              · exact Or.inl ⟨rfl, rfl⟩
              · exact Or.inr (Or.inl ⟨rfl, rfl⟩)
              · exact Or.inr (Or.inl ⟨rfl, rfl⟩)
          | toEven =>
              dsimp only
              split_ifs
              · exact Or.inl ⟨rfl, rfl⟩
              · exact Or.inr (Or.inl ⟨rfl, rfl⟩)
              · exact Or.inl ⟨rfl, rfl⟩
              · exact Or.inr (Or.inl ⟨rfl, rfl⟩)

/-- A decimal that is found on a grid has the exponent of the grid and lies in the interval. -/
theorem of_onGrid_eq_some {tie : Tie} {e : ℤ} {d : Decimal} (h : i.onGrid tie e = some d) :
    i.holds d = true ∧ d.exponent = e := by
  rcases onGrid_cases i tie e with ⟨hholds, hgrid⟩ | ⟨hholds, hgrid⟩ | ⟨-, hgrid⟩
  · obtain rfl := Option.some_inj.mp (hgrid.symm.trans h)
    exact ⟨hholds, rfl⟩
  · obtain rfl := Option.some_inj.mp (hgrid.symm.trans h)
    exact ⟨hholds, rfl⟩
  · exact absurd (hgrid.symm.trans h) (by simp)

/-- The grid point is the last one that does not exceed the value. -/
theorem gridPoint_bounds (hden : 0 < i.denominator) (e : ℤ) :
    (⟨i.gridPoint e, e⟩ : Decimal).value ≤ i.value * i.unit ∧
      i.value * i.unit < (⟨i.gridPoint e, e⟩ : Decimal).value + 10 ^ e := by
  have hscale : (0 : ℚ) < i.denominator * 10 ^ (-e).toNat := by
    have hdenq : (0 : ℚ) < i.denominator := by exact_mod_cast hden
    positivity
  have hone : (i.scaledDigits 1 e : ℚ) = 10 ^ e * (i.denominator * 10 ^ (-e).toNat) := by
    rw [scaledDigits_cast]
    simp [Decimal.value]
  have hgrid : 0 < i.scaledDigits 1 e := by
    have hcast : (0 : ℚ) < i.scaledDigits 1 e := by
      rw [hone]
      positivity
    exact_mod_cast hcast
  set k := i.gridPoint e with hk
  have hvalue : (⟨k, e⟩ : Decimal).value * (i.denominator * 10 ^ (-e).toNat) =
      k * i.scaledDigits 1 e := by
    rw [hone, Decimal.value]
    ring
  constructor
  · have hle : k * i.scaledDigits 1 e ≤ i.scaled i.value e := Nat.div_mul_le_self _ _
    rw [← Nat.cast_le (α := ℚ), Nat.cast_mul, ← hvalue, scaled_cast hden] at hle
    exact le_of_mul_le_mul_right hle hscale
  · have hlt : i.scaled i.value e < k * i.scaledDigits 1 e + i.scaledDigits 1 e := by
      rw [← Nat.succ_mul]
      exact Nat.lt_mul_of_div_lt (Nat.lt_succ_self _) hgrid
    rw [← Nat.cast_lt (α := ℚ), Nat.cast_add, Nat.cast_mul, ← hvalue, hone, scaled_cast hden,
      ← add_mul] at hlt
    exact lt_of_mul_lt_mul_right hlt hscale.le

/-- A grid that is no coarser than the way down to the lower end has a point in the interval. -/
theorem onGrid_isSome (tie : Tie) {e : ℤ} (hden : 0 < i.denominator) (hunit : 0 < i.unit)
    (habove : i.value < i.above) (hfine : (10 : ℚ) ^ e ≤ (i.value - i.below) * i.unit) :
    (i.onGrid tie e).isSome = true := by
  obtain ⟨hlow, hhigh⟩ := gridPoint_bounds hden e
  have hholds : i.holds ⟨i.gridPoint e, e⟩ = true := by
    rw [holds_iff hden]
    left
    have hup : (i.value : ℚ) * i.unit < i.above * i.unit := by
      have hcast : (i.value : ℚ) < i.above := by exact_mod_cast habove
      exact mul_lt_mul_of_pos_right hcast hunit
    constructor
    · linarith
    · linarith
  rcases onGrid_cases i tie e with ⟨-, hgrid⟩ | ⟨-, hgrid⟩ | ⟨hnot, -⟩
  · rw [hgrid]
    rfl
  · rw [hgrid]
    rfl
  · rw [hholds] at hnot
    exact absurd hnot (by simp)

/-! ## The first digit -/

/-- The digits before the point of a quotient that is at least one. -/
theorem digitCount_div_eq_log {n d : ℕ} (hd : 0 < d) (h : d ≤ n) :
    (digitCount (n / d) : ℤ) - 1 = Int.log 10 ((n : ℚ) / d) := by
  have hdq : (0 : ℚ) < d := by exact_mod_cast hd
  have hnq : (0 : ℚ) < n := by exact_mod_cast hd.trans_le h
  obtain ⟨hone, hlow, hhigh⟩ := digitCount_bounds (Nat.div_pos h hd)
  apply eq_log_of_bounds (by decide) (by positivity)
  · calc
      (10 : ℚ) ^ ((digitCount (n / d) : ℤ) - 1) = ((10 ^ (digitCount (n / d) - 1) : ℕ) : ℚ) := by
        push_cast
        rw [← zpow_natCast]
        congr 1
        omega
      _ ≤ ((n / d : ℕ) : ℚ) := by exact_mod_cast hlow
      _ ≤ n / d := Nat.cast_div_le
  · rw [sub_add_cancel, zpow_natCast, div_lt_iff₀ hdq]
    have hlt : n < 10 ^ digitCount (n / d) * d := by
      rw [← Nat.div_lt_iff_lt_mul hd]
      exact hhigh
    exact_mod_cast hlt

/-- The number before the quotient rounded up lies on the other side of the denominator. -/
theorem ceil_pred_bounds {n d : ℕ} (hn : 0 < n) (h : n < d) :
    n * ((d + n - 1) / n - 1) < d ∧ d ≤ n * ((d + n - 1) / n) ∧ 0 < (d + n - 1) / n - 1 := by
  have hmul := Nat.div_add_mod (d + n - 1) n
  have hmod := Nat.mod_lt (d + n - 1) hn
  have htwo : 2 ≤ (d + n - 1) / n := by
    rw [Nat.le_div_iff_mul_le hn]
    omega
  refine ⟨?_, by omega, by omega⟩
  rw [Nat.mul_sub, Nat.mul_one]
  omega

/-- The zeros behind the point of a quotient below one. -/
theorem neg_digitCount_eq_log {n d : ℕ} (hn : 0 < n) (h : n < d) :
    Int.neg (digitCount ((d + n - 1) / n - 1)) = Int.log 10 ((n : ℚ) / d) := by
  have hdq : (0 : ℚ) < d := by exact_mod_cast hn.trans h
  have hnq : (0 : ℚ) < n := by exact_mod_cast hn
  obtain ⟨hunder, hover, hpos⟩ := ceil_pred_bounds hn h
  set w := (d + n - 1) / n - 1 with hw
  obtain ⟨hone, hlow, hhigh⟩ := digitCount_bounds hpos
  apply eq_log_of_bounds (by decide) (by positivity)
  · rw [show Int.neg (digitCount w) = -(digitCount w : ℤ) from rfl, zpow_neg, zpow_natCast,
      le_div_iff₀ hdq, inv_mul_le_iff₀ (by positivity)]
    have hle : d ≤ 10 ^ digitCount w * n := by
      calc
        d ≤ n * ((d + n - 1) / n) := hover
        _ ≤ n * 10 ^ digitCount w := Nat.mul_le_mul_left _ (by omega)
        _ = 10 ^ digitCount w * n := Nat.mul_comm _ _
    exact_mod_cast hle
  · have hexp : Int.neg (digitCount w) + 1 = -((digitCount w - 1 : ℕ) : ℤ) := by
      change -(digitCount w : ℤ) + 1 = _
      omega
    rw [hexp, zpow_neg, zpow_natCast, div_lt_iff₀ hdq, lt_inv_mul_iff₀ (by positivity)]
    have hlt : 10 ^ (digitCount w - 1) * n < d := by
      calc
        10 ^ (digitCount w - 1) * n ≤ w * n := Nat.mul_le_mul_right _ hlow
        _ = n * w := Nat.mul_comm _ _
        _ < d := hunder
    exact_mod_cast hlt

/-- The number of digits before the point, or of zeros behind it, gives the power of ten. -/
theorem leadingExponent_eq_log (hden : 0 < i.denominator) (hpos : 0 < i.value * i.numerator) :
    i.leadingExponent = Int.log 10 (i.value * i.unit) := by
  have hv : (i.value : ℚ) * i.unit = (i.value * i.numerator : ℕ) / i.denominator := by
    rw [unit]
    push_cast
    ring
  rw [hv]
  unfold leadingExponent
  dsimp only
  split_ifs with h
  · exact digitCount_div_eq_log hden h
  · exact neg_digitCount_eq_log hpos (not_le.mp h)

/-! ## The rounding interval -/

section Around

variable {f : Format} {m : ℕ} {q : ℤ}

theorem around_denominator_pos (f : Format) (m : ℕ) (q : ℤ) :
    0 < (around f m q).denominator :=
  twoPow_pos _

theorem around_unit (f : Format) (m : ℕ) (q : ℤ) : (around f m q).unit = 2 ^ q / 4 := by
  have hquotient := scaled_quotient 1 1 (2 - q)
  rw [one_mul, one_mul, Nat.cast_one, div_one, one_div, ← zpow_neg, neg_sub] at hquotient
  unfold unit around
  dsimp only
  rw [hquotient, zpow_sub₀ two_ne_zero]
  norm_num

theorem around_below (hm : 0 < m) :
    4 * (m : ℚ) - 2 ≤ (around f m q).below ∧ ((around f m q).below : ℚ) ≤ 4 * m - 1 ∧
      (m = 2 ^ f.fractionBits → f.leastExponent < q →
        ((around f m q).below : ℚ) = 4 * m - 1) := by
  have hone : ((4 * m - 1 : ℕ) : ℚ) = 4 * m - 1 := by
    rw [Nat.cast_sub (by omega)]
    push_cast
    ring
  have htwo : ((4 * m - 2 : ℕ) : ℚ) = 4 * m - 2 := by
    rw [Nat.cast_sub (by omega)]
    push_cast
    ring
  unfold around
  dsimp only
  split
  next h =>
      rw [hone]
      exact ⟨by linarith, le_rfl, fun _ _ => rfl⟩
  next h =>
      rw [htwo]
      exact ⟨le_rfl, by linarith, fun hfull hleast => absurd ⟨hfull, hleast⟩ h⟩

/-- What lies in the interval around a number of the format is rounded to that number. -/
theorem roundsTo_of_holds (hc : f.Canonical m q) (hm : 0 < m) {d : Decimal}
    (h : (around f m q).holds d = true) :
    f.RoundsTo d.value m q := by
  have hpow : (0 : ℚ) < 2 ^ q := by positivity
  obtain ⟨hlow, hhigh, hfull⟩ := around_below (f := f) (q := q) hm
  have habove : ((around f m q).above : ℚ) = 4 * m + 2 := by
    unfold around
    push_cast
    ring
  have hvalue : d.value = d.value / 2 ^ q * 2 ^ q := by field_simp
  have hscale (k x : ℚ) : k * (2 ^ q / 4) < x * 2 ^ q ↔ k / 4 < x := by
    rw [show k * (2 ^ q / 4) = k / 4 * 2 ^ q by ring, mul_lt_mul_iff_left₀ hpow]
  have hscale' (k x : ℚ) : x * 2 ^ q < k * (2 ^ q / 4) ↔ x < k / 4 := by
    rw [show k * (2 ^ q / 4) = k / 4 * 2 ^ q by ring, mul_lt_mul_iff_left₀ hpow]
  have hequal (k x : ℚ) : x * 2 ^ q = k * (2 ^ q / 4) ↔ x = k / 4 := by
    rw [show k * (2 ^ q / 4) = k / 4 * 2 ^ q by ring, mul_left_inj' hpow.ne']
  rw [holds_iff (around_denominator_pos f m q), around_unit, hvalue, hscale, hscale', hequal,
    hequal, habove] at h
  have hends : ((around f m q).below : ℚ) / 4 ≤ d.value / 2 ^ q ∧ d.value / 2 ^ q ≤ m + 1 / 2 := by
    rcases h with h | ⟨-, h | h⟩
    · exact ⟨h.1.le, by linarith [h.2]⟩
    · exact ⟨h.ge, by linarith⟩
    · exact ⟨by linarith, by linarith⟩
  refine ⟨hc, ?_, ?_⟩
  · have hdist : |d.value / 2 ^ q - m| ≤ 1 / 2 := by
      rw [abs_le]
      constructor <;> linarith [hends.1, hends.2]
    rcases h with h | ⟨hclosed, -⟩
    · left
      rw [abs_lt]
      constructor <;> linarith [h.1, h.2]
    · rcases hdist.lt_or_eq with hlt | heq
      · exact Or.inl hlt
      · exact Or.inr ⟨heq, by simpa [around] using hclosed⟩
  · intro hm' hleast
    have hbelow := hfull hm' hleast
    linarith [hends.1]

/-- A grid finer than a quarter of the last binary place has a point in the interval. -/
theorem around_onGrid_isSome (tie : Tie) (hm : 0 < m) {e : ℤ} (h : (10 : ℚ) ^ e ≤ 2 ^ q / 4) :
    ((around f m q).onGrid tie e).isSome = true := by
  have hunit : (0 : ℚ) < (around f m q).unit := by
    rw [around_unit]
    positivity
  apply onGrid_isSome tie (around_denominator_pos f m q) hunit
  · change 4 * m < 4 * m + 2
    omega
  · have hbelow := (around_below (f := f) (q := q) hm).2.1
    have hvalue : ((around f m q).value : ℚ) = 4 * m := by
      unfold around
      push_cast
      ring
    rw [hvalue, around_unit]
    calc
      (10 : ℚ) ^ e ≤ 1 * (2 ^ q / 4) := by rw [one_mul]; exact h
      _ ≤ (4 * m - (around f m q).below) * (2 ^ q / 4) := by
        gcongr
        linarith

theorem around_leadingExponent (hm : 0 < m) :
    (around f m q).leadingExponent = Int.log 10 ((m : ℚ) * 2 ^ q) := by
  have hvalue : ((around f m q).value : ℚ) * (around f m q).unit = m * 2 ^ q := by
    rw [around_unit]
    unfold around
    push_cast
    ring
  have hpos : 0 < (around f m q).value * (around f m q).numerator :=
    Nat.mul_pos (Nat.mul_pos (by decide) hm) (twoPow_pos _)
  rw [leadingExponent_eq_log (around_denominator_pos f m q) hpos, hvalue]

end Around

end Interval

/-! ## The search -/

theorem Decimal.strip_value (fuel : ℕ) (d : Decimal) : (d.strip fuel).value = d.value := by
  induction fuel generalizing d with
  | zero => rfl
  | succ fuel ih =>
      unfold Decimal.strip
      split
      next h =>
          rw [ih]
          have hten : (d.digits : ℚ) = 10 * (d.digits / 10 : ℕ) := by
            have hmul : d.digits = 10 * (d.digits / 10) := by omega
            exact_mod_cast hmul
          unfold Decimal.value
          rw [zpow_add_one₀ (by norm_num), hten]
          ring
      next => rfl

theorem Decimal.exponent_le_strip (fuel : ℕ) (d : Decimal) :
    d.exponent ≤ (d.strip fuel).exponent := by
  induction fuel generalizing d with
  | zero => exact le_rfl
  | succ fuel ih =>
      unfold Decimal.strip
      split
      · have hstep := ih ⟨d.digits / 10, d.exponent + 1⟩
        dsimp only at hstep
        omega
      · exact le_rfl

/-- The first hit of a search is not behind a place where there is one. -/
theorem exists_findSome?_range {α : Type} {g : ℕ → Option α} {n bound : ℕ} (hn : n < bound)
    (h : (g n).isSome = true) :
    ∃ k ≤ n, ∃ a, g k = some a ∧ (List.range bound).findSome? g = some a := by
  obtain ⟨a, ha⟩ : ∃ a, (List.range bound).findSome? g = some a := by
    rw [← Option.isSome_iff_exists, List.findSome?_isSome_iff]
    exact ⟨n, List.mem_range.mpr hn, h⟩
  obtain ⟨before, k, after, hsplit, hk, hnone⟩ := List.findSome?_eq_some_iff.mp ha
  refine ⟨k, ?_, a, hk, ha⟩
  have hmem : n ∈ before ++ k :: after := by
    rw [← hsplit]
    exact List.mem_range.mpr hn
  have hsorted : (before ++ k :: after).Pairwise (· < ·) := by
    rw [← hsplit]
    exact List.pairwise_lt_range
  rcases List.mem_append.mp hmem with hbefore | hafter
  · rw [hnone n hbefore] at h
    exact absurd h (by simp)
  · rcases List.mem_cons.mp hafter with rfl | hafter
    · exact le_rfl
    · exact ((List.pairwise_cons.mp (List.pairwise_append.mp hsorted).2.1).1 n hafter).le

/-- If `n + 1` digits tell all numbers of a format apart, a grid with these digits is fine enough. -/
theorem ten_zpow_log_sub_le {f : Format} {m : ℕ} {q : ℤ} (hc : f.Canonical m q) (hm : 0 < m) {n : ℕ}
    (hwide : 2 ^ (f.fractionBits + 3) ≤ 10 ^ n) :
    (10 : ℚ) ^ (Int.log 10 ((m : ℚ) * 2 ^ q) - n) ≤ 2 ^ q / 4 := by
  have hpos : (0 : ℚ) < m * 2 ^ q := by
    have hmq : (0 : ℚ) < m := by exact_mod_cast hm
    positivity
  have hlow : (10 : ℚ) ^ Int.log 10 ((m : ℚ) * 2 ^ q) ≤ m * 2 ^ q := by
    exact_mod_cast Int.zpow_log_le_self (b := 10) (by decide) hpos
  have hfits : (m : ℚ) ≤ 2 ^ (f.fractionBits + 1) := by exact_mod_cast hc.fits.le
  have hten : (2 : ℚ) ^ (f.fractionBits + 1) * 4 ≤ 10 ^ n := by
    have hcast : ((2 ^ (f.fractionBits + 3) : ℕ) : ℚ) ≤ (10 ^ n : ℕ) := by exact_mod_cast hwide
    push_cast at hcast
    calc
      (2 : ℚ) ^ (f.fractionBits + 1) * 4 = 2 ^ (f.fractionBits + 3) := by ring
      _ ≤ 10 ^ n := hcast
  rw [zpow_sub₀ (by norm_num), zpow_natCast, div_le_div_iff₀ (by positivity) (by norm_num)]
  calc
    (10 : ℚ) ^ Int.log 10 ((m : ℚ) * 2 ^ q) * 4 ≤ m * 2 ^ q * 4 := by gcongr
    _ ≤ 2 ^ (f.fractionBits + 1) * 2 ^ q * 4 := by gcongr
    _ = 2 ^ q * (2 ^ (f.fractionBits + 1) * 4) := by ring
    _ ≤ 2 ^ q * 10 ^ n := by gcongr

/-- The decimal that is found for a number of a format is rounded to that number.  If `n + 1` digits
tell all numbers of the format apart, it has no more of them. -/
theorem shortest_spec {f : Format} {m : ℕ} {q : ℤ} (tie : Tie) (hc : f.Canonical m q) (hm : 0 < m)
    {n : ℕ} (hn : n < 20) (hwide : 2 ^ (f.fractionBits + 3) ≤ 10 ^ n) :
    f.RoundsTo (shortest f tie m q).value m q ∧
      Int.log 10 ((m : ℚ) * 2 ^ q) - n ≤ (shortest f tie m q).exponent := by
  set i := Interval.around f m q with hi
  have hlead : i.leadingExponent = Int.log 10 ((m : ℚ) * 2 ^ q) :=
    Interval.around_leadingExponent hm
  have hfine := ten_zpow_log_sub_le hc hm hwide
  rw [← hlead] at hfine
  obtain ⟨k, hk, d, hgrid, hfound⟩ := exists_findSome?_range
    (g := fun k : ℕ => i.onGrid tie (i.leadingExponent - k)) hn
    (Interval.around_onGrid_isSome tie hm hfine)
  obtain ⟨hholds, hexponent⟩ := Interval.of_onGrid_eq_some hgrid
  have hshortest : shortest f tie m q = d.strip 20 := by
    unfold shortest
    dsimp only
    rw [← hi, hfound, Option.getD_some]
  rw [hshortest, Decimal.strip_value]
  refine ⟨Interval.roundsTo_of_holds hc hm hholds, ?_⟩
  have hstrip := Decimal.exponent_le_strip 20 d
  omega

/-- The decimal that is found has about as many digits as tell the numbers of the format apart. -/
theorem shortest_digits_lt {f : Format} {m : ℕ} {q : ℤ} (tie : Tie) (hc : f.Canonical m q)
    (hm : 0 < m) {n : ℕ} (hn : n < 20) (hwide : 2 ^ (f.fractionBits + 3) ≤ 10 ^ n) :
    (shortest f tie m q).digits < 2 * 10 ^ (n + 1) := by
  obtain ⟨hround, hexp⟩ := shortest_spec tie hc hm hn hwide
  have hpos : (0 : ℚ) < m * 2 ^ q := by
    have hmq : (0 : ℚ) < m := by exact_mod_cast hm
    positivity
  have hlog : (m : ℚ) * 2 ^ q < 10 ^ (Int.log 10 ((m : ℚ) * 2 ^ q) + 1) := by
    exact_mod_cast Int.lt_zpow_succ_log_self (b := 10) (by decide) ((m : ℚ) * 2 ^ q)
  have hlt : ((shortest f tie m q).digits : ℚ) * 10 ^ (shortest f tie m q).exponent <
      (2 * 10 ^ (n + 1) : ℕ) * 10 ^ (shortest f tie m q).exponent := by
    calc
      _ ≤ 2 * ((m : ℚ) * 2 ^ q) := hround.value_le hm
      _ < 2 * 10 ^ (Int.log 10 ((m : ℚ) * 2 ^ q) + 1) := by gcongr
      _ ≤ 2 * 10 ^ (((n + 1 : ℕ) : ℤ) + (shortest f tie m q).exponent) := by
        refine mul_le_mul_of_nonneg_left (zpow_le_zpow_right₀ (by norm_num) ?_) (by norm_num)
        push_cast
        omega
      _ = (2 * 10 ^ (n + 1) : ℕ) * 10 ^ (shortest f tie m q).exponent := by
        rw [zpow_add₀ (by norm_num), zpow_natCast]
        push_cast
        ring
  exact_mod_cast lt_of_mul_lt_mul_right hlt (by positivity)

end Number
end DesignPages
