import DesignPages.Proofs.Json.Literal
import DesignPages.Proofs.Number.Narrowing
import DesignPages.Proofs.Number.Product
import DesignPages.Style.Color

/-!
# Channels of colors

A channel is printed as a decimal and read back by way of a double, which may lose its last digit.
The byte that stands for the channel is not changed by that.
-/

namespace DesignPages

open Float.Model (UnpackedFloat)
open Number (Datum ofSingle single singleOfBits)

namespace Color

/-! ## Bytes of channels -/

theorem ofSingle_zero : ofSingle 0 = .finite false 0 (-149) := by decide

theorem ofSingle_one : ofSingle 1 = .finite false 8388608 (-23) := by decide

theorem lt_iff (x y : Float32) :
    x < y ↔ (ofSingle x).unpacked.lt (ofSingle y).unpacked = true := by
  rw [← Number.unpack_single, ← Number.unpack_single]
  change decide (x.toModel < y.toModel) = true ↔ _
  rw [decide_eq_true_eq]
  rfl

theorem le_iff (x y : Float32) :
    x ≤ y ↔ (ofSingle x).unpacked.le (ofSingle y).unpacked = true := by
  rw [← Number.unpack_single, ← Number.unpack_single]
  change decide (x.toModel ≤ y.toModel) = true ↔ _
  rw [decide_eq_true_eq]
  rfl

theorem canonical_of_ofSingle_eq {x : Float32} {negative : Bool} {m : ℕ} {q : ℤ}
    (hx : ofSingle x = .finite negative m q) :
    single.Canonical m q ∧ single.place m q < single.infinity ∧
      x.toBits.toNat = single.sign negative + single.place m q :=
  Number.Format.eq_of_datum_eq_finite (f := single)
    (show x.toBits.toNat < 2 * Number.twoPow (23 + 8) from x.toBits.toNat_lt) hx

theorem eq_of_ofSingle_eq {x y : Float32} {negative : Bool} {m : ℕ} {q : ℤ}
    (hx : ofSingle x = .finite negative m q) (hy : ofSingle y = .finite negative m q) :
    x = y := by
  obtain ⟨-, -, hxbits⟩ := canonical_of_ofSingle_eq hx
  obtain ⟨-, -, hybits⟩ := canonical_of_ofSingle_eq hy
  rw [← Number.singleOfBits_toBits x, ← Number.singleOfBits_toBits y, hxbits, hybits]

theorem exponent_of_zero {q : ℤ} (hc : single.Canonical 0 q) : q = -149 :=
  hc.eq_leastExponent_of_zero.trans (by decide)

theorem channelByte_of_lt_zero {x : Float32} (h : x < 0) : channelByte x = 0 := by
  rw [channelByte, clampUnit, if_pos h]
  decide

theorem channelByte_of_one_lt {x : Float32} (hzero : ¬x < 0) (h : 1 < x) :
    channelByte x = 255 := by
  rw [channelByte, clampUnit, if_neg hzero, if_pos h]
  decide

/-- A negative channel counts as zero. -/
theorem channelByte_of_negative {x : Float32} {m : ℕ} {q : ℤ}
    (hx : ofSingle x = .infinite true ∨ ofSingle x = .finite true m q) :
    channelByte x = 0 := by
  rcases hx with hx | hx
  · apply channelByte_of_lt_zero
    rw [lt_iff, hx, ofSingle_zero]
    rfl
  · by_cases hm : m = 0
    · subst hm
      obtain ⟨hc, -, -⟩ := canonical_of_ofSingle_eq hx
      rw [exponent_of_zero hc] at hx
      have hminus : ofSingle (singleOfBits (single.sign true)) = .finite true 0 (-149) := by decide
      rw [eq_of_ofSingle_eq hx hminus]
      decide
    · apply channelByte_of_lt_zero
      rw [lt_iff, hx, ofSingle_zero, Datum.unpacked, dif_neg hm]
      rfl

theorem not_lt_zero {x : Float32} {m : ℕ} {q : ℤ} (hx : ofSingle x = .finite false m q) :
    ¬x < 0 := by
  rw [lt_iff, hx, ofSingle_zero, Datum.unpacked]
  by_cases hm : m = 0
  · rw [dif_pos hm]
    decide
  · rw [dif_neg hm]
    exact Bool.false_ne_true

/-- Positive numbers of the format are compared by their exponents first. -/
theorem one_lt_iff {x : Float32} {m : ℕ} {q : ℤ} (hx : ofSingle x = .finite false m q)
    (hm : m ≠ 0) :
    1 < x ↔ -23 < q ∨ (q = -23 ∧ 8388608 < m) := by
  rw [lt_iff, hx, ofSingle_one, Datum.unpacked, Datum.unpacked, dif_neg hm, dif_neg (by decide)]
  change (some ((compare (-23 : ℤ) q).then (compare 8388608 m)) == some .lt) = true ↔ _
  rw [beq_iff_eq, Option.some_inj, Ordering.then_eq_lt, compare_lt_iff_lt, compare_eq_iff_eq,
    compare_lt_iff_lt, eq_comm]

/-- A channel from one on counts as one. -/
theorem channelByte_of_one_le {x : Float32} {m : ℕ} {q : ℤ}
    (hx : ofSingle x = .infinite false ∨
      (ofSingle x = .finite false m q ∧ 1 ≤ (m : ℚ) * 2 ^ q)) :
    channelByte x = 255 := by
  rcases hx with hx | ⟨hx, hone⟩
  · apply channelByte_of_one_lt
    · rw [lt_iff, hx, ofSingle_zero]
      exact Bool.false_ne_true
    · rw [lt_iff, hx, ofSingle_one]
      rfl
  · obtain ⟨hc, -, -⟩ := canonical_of_ofSingle_eq hx
    have hm : m ≠ 0 := by
      rintro rfl
      norm_num at hone
    have hq : -24 < q := by
      have hlt : (2 : ℚ) ^ (0 : ℤ) < 2 ^ (24 + q) := by
        have hfits : (m : ℚ) < 2 ^ (24 : ℤ) := by exact_mod_cast hc.fits
        rw [zpow_zero, zpow_add₀ two_ne_zero]
        exact hone.trans_lt (by gcongr)
      have hexp := (zpow_lt_zpow_iff_right₀ (by norm_num)).mp hlt
      omega
    have hfull : 8388608 ≤ m := hc.full (by change -149 < q; omega)
    by_cases heq : q = -23 ∧ m = 8388608
    · obtain ⟨rfl, rfl⟩ := heq
      rw [eq_of_ofSingle_eq hx ofSingle_one]
      decide
    · apply channelByte_of_one_lt (not_lt_zero hx)
      rw [one_lt_iff hx hm]
      omega

/-- The whole part of a number below one. -/
theorem toUInt8_of_small {y : Float32} {r : ℕ} {p : ℤ} (hy : ofSingle y = .finite false r p)
    (hr : r < 2 ^ 24) (hp : p ≤ -24) :
    y.toUInt8 = 0 := by
  change y.toModel.unpack.toUInt8 = 0
  rw [Number.unpack_single, hy, Datum.unpacked]
  by_cases hzero : r = 0
  · rw [dif_pos hzero]
    rfl
  · rw [dif_neg hzero]
    have hwhole : UnpackedFloat.roundToInt (Number.signOf false) r p = 0 := by
      have hshift : (p - 0).toNat = 0 := by omega
      unfold UnpackedFloat.roundToInt UnpackedFloat.decreaseExponent UnpackedFloat.shiftToExponent
      dsimp only
      rw [hshift, Number.shiftRight_mantissa]
      have hdiv : r <<< 0 / 2 ^ (0 - (p - ((0 : ℕ) : ℤ))).toNat = 0 := by
        apply Nat.div_eq_of_lt
        exact hr.trans_le (Nat.pow_le_pow_right (by decide) (by omega))
      change ((r <<< 0 / 2 ^ (0 - (p - ((0 : ℕ) : ℤ))).toNat : ℕ) : ℤ) = 0
      rw [hdiv]
      rfl
    change UInt8.ofNatClamp (UnpackedFloat.roundToInt (Number.signOf false) r p).toNat = 0
    rw [hwhole]
    rfl

theorem sub_zeroByte {y : Float32} {r : ℕ} {p : ℤ} (hy : ofSingle y = .finite false r p) :
    y - (0 : UInt8).toFloat32 = y := by
  have hzero : ofSingle (0 : UInt8).toFloat32 = .finite false 0 (-149) := by decide
  obtain ⟨hc, hfinite, -⟩ := canonical_of_ofSingle_eq hy
  have hpack := Number.ofSingle_pack false hc hfinite
  have hsub : y - (0 : UInt8).toFloat32 =
      .ofModel (.pack (Datum.finite false r p).unpacked) := by
    change Float32.ofModel (.pack (.sub .binary32 y.toModel.unpack
      (0 : UInt8).toFloat32.toModel.unpack)) = _
    rw [Number.unpack_single, Number.unpack_single, hy, hzero]
    congr 2
    rw [Datum.unpacked]
    by_cases hr : r = 0
    · rw [dif_pos hr]
      rfl
    · rw [dif_neg hr]
      rfl
  rw [hsub]
  exact eq_of_ofSingle_eq hpack hy

theorem roundByte_of_small {y : Float32} {r : ℕ} {p : ℤ} (hy : ofSingle y = .finite false r p)
    (hp : p ≤ -25) :
    roundByte y = 0 := by
  obtain ⟨hc, -, -⟩ := canonical_of_ofSingle_eq hy
  have hhalf : ofSingle 0.5 = .finite false 8388608 (-24) := by decide
  have hless : ¬0.5 ≤ y := by
    rw [le_iff, hy, hhalf, Datum.unpacked, Datum.unpacked, dif_neg (by decide)]
    by_cases hr : r = 0
    · rw [dif_pos hr]
      decide
    · rw [dif_neg hr]
      have hgt : compare (-24 : ℤ) p = .gt := compare_gt_iff_gt.mpr (by omega)
      change (some ((compare (-24 : ℤ) p).then (compare 8388608 r))).any (·.isLE) ≠ true
      rw [hgt]
      exact Bool.false_ne_true
  unfold roundByte
  dsimp only
  rw [toUInt8_of_small hy hc.fits (by omega), sub_zeroByte hy, if_neg hless]

/-- A tiny channel is black. -/
theorem channelByte_of_tiny {x : Float32} {m : ℕ} {q : ℤ} (hx : ofSingle x = .finite false m q)
    (hsmall : (m : ℚ) * 2 ^ q ≤ 2 ^ (-13 : ℤ)) :
    channelByte x = 0 := by
  obtain ⟨hc, -, -⟩ := canonical_of_ofSingle_eq hx
  rcases Nat.eq_zero_or_pos m with rfl | hm
  · rw [exponent_of_zero hc] at hx
    rw [eq_of_ofSingle_eq hx ofSingle_zero]
    decide
  · have hlog : (Nat.log2 m : ℤ) + q ≤ -13 := by
      have hlow := (Number.log2_bounds hm).1
      have hle : (2 : ℚ) ^ ((Nat.log2 m : ℤ) + q) ≤ 2 ^ (-13 : ℤ) := by
        rw [zpow_add₀ two_ne_zero]
        calc
          (2 : ℚ) ^ (Nat.log2 m : ℤ) * 2 ^ q ≤ m * 2 ^ q := by gcongr
          _ ≤ 2 ^ (-13 : ℤ) := hsmall
      exact (zpow_le_zpow_iff_right₀ (by norm_num)).mp hle
    have hq : q ≤ -36 := by
      by_contra hlt
      have hfull := hc.full (by change -149 < q; omega)
      have hge := (Nat.le_log2 hm.ne').mpr hfull
      change 23 ≤ Nat.log2 m at hge
      omega
    have hone : ¬1 < x := by
      rw [one_lt_iff hx hm.ne']
      omega
    obtain ⟨r, p, hproduct, -, hp⟩ := Number.ofSingle_mul_255 hx hm hlog
    rw [channelByte, clampUnit, if_neg (not_lt_zero hx), if_neg hone]
    exact roundByte_of_small hproduct (by omega)

/-! ## Printing and reading -/

section Reading

variable {v : ℚ} {m : ℕ} {q : ℤ}

theorem value_le_of_lt (h : single.RoundsTo v m q) (hm : 0 < m)
    (hsmall : (m : ℚ) * 2 ^ q < 2 ^ (-13 : ℤ)) :
    v ≤ 2 ^ (-13 : ℤ) := by
  have hone : (1 : ℚ) ≤ m := by exact_mod_cast hm
  have hq : q < -13 := by
    have hlt : (2 : ℚ) ^ q < 2 ^ (-13 : ℤ) :=
      (le_mul_of_one_le_left (by positivity) hone).trans_lt hsmall
    exact (zpow_lt_zpow_iff_right₀ (by norm_num)).mp hlt
  obtain ⟨k, hk⟩ := Int.eq_ofNat_of_zero_le (show 0 ≤ -13 - q by omega)
  have hpow : (2 : ℚ) ^ (-13 : ℤ) = (2 ^ k : ℕ) * 2 ^ q := by
    push_cast
    rw [← zpow_natCast, ← hk, ← zpow_add₀ two_ne_zero, sub_add_cancel]
  rw [hpow] at hsmall ⊢
  have hlt : m < 2 ^ k := by
    have hcast : (m : ℚ) < (2 ^ k : ℕ) := lt_of_mul_lt_mul_right hsmall (by positivity)
    exact_mod_cast hcast
  have hnext : (m : ℚ) + 1 ≤ (2 ^ k : ℕ) := by exact_mod_cast hlt
  have hbound := (abs_le.mp h.nearest.abs_sub_le).2
  rw [← div_le_iff₀ (by positivity)]
  linarith

theorem one_le_value_of_lt (h : single.RoundsTo v m q) (hlarge : 1 < (m : ℚ) * 2 ^ q) :
    1 ≤ v := by
  have hbound := (abs_le.mp h.nearest.abs_sub_le).1
  have hpow : (0 : ℚ) < 2 ^ q := by positivity
  rcases le_or_gt 0 q with hq | hq
  · have hfull : 8388608 ≤ m := h.full (by change -149 < q; omega)
    have hcast : (2 : ℚ) ≤ m := by exact_mod_cast (show 2 ≤ m by omega)
    have hone : (1 : ℚ) ≤ 2 ^ q := one_le_zpow₀ (by norm_num) hq
    have hunit : 1 ≤ v / 2 ^ q := by linarith
    rw [le_div_iff₀ hpow, one_mul] at hunit
    exact hone.trans hunit
  · obtain ⟨k, hk⟩ := Int.eq_ofNat_of_zero_le (show 0 ≤ -q by omega)
    have hunit : (1 : ℚ) = (2 ^ k : ℕ) * 2 ^ q := by
      push_cast
      rw [← zpow_natCast, ← hk, ← zpow_add₀ two_ne_zero, neg_add_cancel, zpow_zero]
    rw [hunit] at hlarge ⊢
    have hlt : 2 ^ k < m := by
      have hcast : ((2 ^ k : ℕ) : ℚ) < m := lt_of_mul_lt_mul_right hlarge hpow.le
      exact_mod_cast hcast
    have hnext : ((2 ^ k : ℕ) : ℚ) + 1 ≤ m := by exact_mod_cast hlt
    rw [← le_div_iff₀ hpow]
    linarith

/-- Between both ends a channel is printed with at most twelve places. -/
theorem le_exponent_of_unit {d : Number.Decimal} (hlow : 2 ^ (-13 : ℤ) ≤ (m : ℚ) * 2 ^ q)
    (hexp : Int.log 10 ((m : ℚ) * 2 ^ q) - (8 : ℕ) ≤ d.exponent) : -12 ≤ d.exponent := by
  have hpos : (0 : ℚ) < m * 2 ^ q := lt_of_lt_of_le (by positivity) hlow
  have hten : (10 : ℚ) ^ (-4 : ℤ) ≤ m * 2 ^ q := by
    refine le_trans ?_ hlow
    norm_num
  have hlog := (Int.zpow_le_iff_le_log (b := 10) (by decide) hpos).mp (by exact_mod_cast hten)
  omega

/-- The double nearest to a decimal that stands for a channel between both ends has this channel for
its nearest single. -/
theorem roundsTo_reread {d : Number.Decimal} {k : ℕ} (h : single.RoundsTo d.value m q) (hm : 0 < m)
    (hv : 0 < d.value) (hlow : 2 ^ (-13 : ℤ) ≤ (m : ℚ) * 2 ^ q) (hhigh : (m : ℚ) * 2 ^ q ≤ 1)
    (hexp : Int.log 10 ((m : ℚ) * 2 ^ q) - (8 : ℕ) ≤ d.exponent)
    (hk : Number.IsNearest (d.value / 2 ^ Number.double.target d.value) k) :
    single.RoundsTo (k * 2 ^ Number.double.target d.value) m q := by
  have hplaces := le_exponent_of_unit hlow hexp
  have hq : q ≤ -23 := by
    by_contra hlt
    have hfull : 2 ^ 23 ≤ m := h.full (by change -149 < q; omega)
    have hgt : (1 : ℚ) < m * 2 ^ q := by
      have hcast : (2 : ℚ) ^ (23 : ℤ) ≤ m := by exact_mod_cast hfull
      calc
        (1 : ℚ) < 2 ^ (23 + q) := one_lt_zpow₀ (by norm_num) (by omega)
        _ = 2 ^ (23 : ℤ) * 2 ^ q := zpow_add₀ two_ne_zero _ _
        _ ≤ m * 2 ^ q := by gcongr
    exact absurd hhigh (not_le.mpr hgt)
  have hnatural : d.value * 10 ^ 12 = (d.digits * 10 ^ (d.exponent + 12).toNat : ℕ) := by
    push_cast
    rw [Number.Decimal.value, mul_assoc, ← zpow_natCast, ← zpow_natCast, ← zpow_add₀ (by norm_num)]
    congr 2
    push_cast
    omega
  have hupper : d.value < 2 ^ (q + 24) := by
    have hfits : (m : ℚ) + 1 ≤ 2 ^ 24 := by exact_mod_cast h.fits
    have hbound := (abs_le.mp h.nearest.abs_sub_le).2
    have hlt : d.value / 2 ^ q < 2 ^ 24 := by linarith
    rw [div_lt_iff₀ (by positivity)] at hlt
    calc
      d.value < 2 ^ 24 * 2 ^ q := hlt
      _ = 2 ^ (q + 24) := by
        rw [zpow_add₀ two_ne_zero, mul_comm]
        norm_num
  exact h.of_same_side hm fun b =>
    Number.same_side hv hk hnatural (by omega) h.least_le hupper b

end Reading

section Narrowing

variable {c : Float32} {negative : Bool} {m : ℕ} {q : ℤ} {d : Number.Decimal} {w : ℚ}

/-- If the double nearest to a decimal that stands for a channel between both ends is read, what comes
out is this channel. -/
theorem narrow_eq_of_unit (hc : ofSingle c = .finite negative m q) (hm : 0 < m)
    (hround : single.RoundsTo d.value m q)
    (hexp : Int.log 10 ((m : ℚ) * 2 ^ q) - (8 : ℕ) ≤ d.exponent)
    (hfinite : Number.double.round d.value < Number.double.infinity)
    (hlower : 2 ^ (-13 : ℤ) ≤ (m : ℚ) * 2 ^ q) (hupper : (m : ℚ) * 2 ^ q ≤ 1) :
    Number.narrow (Number.doubleOfBits
      (Number.double.sign negative + Number.double.round d.value)) = c := by
  have hv : 0 < d.value := lt_of_lt_of_le (by positivity) (hround.le_value hm)
  obtain ⟨k, hk, hvalue⟩ := Number.Format.exists_valueOf_round_eq hv hfinite
  have hback := roundsTo_reread hround hm hv hlower hupper hexp hk
  rw [← hvalue] at hback
  have hpos := lt_of_lt_of_le (by positivity) (hback.le_value hm)
  obtain ⟨-, hplace, hbits⟩ := canonical_of_ofSingle_eq hc
  rw [Number.narrow_doubleOfBits negative hfinite, Number.Format.round_of_roundsTo hpos hback,
    min_eq_right hplace.le, ← hbits, Number.singleOfBits_toBits]

theorem channelByte_nearest_of_negative {v : ℚ} (hv : 0 ≤ v) :
    channelByte (Number.singleOfBits (single.sign true + single.round v)) = 0 := by
  rcases Number.ofSingle_nearest true hv with ⟨hread, -⟩ | ⟨r, p, hread, -⟩
  · exact channelByte_of_negative (m := 0) (q := 0) (Or.inl hread)
  · exact channelByte_of_negative (Or.inr hread)

/-- The bound is a single itself, so that rounding does not lead beyond it. -/
theorem channelByte_nearest_of_tiny {v : ℚ} (hv : 0 ≤ v) (hsmall : v ≤ 2 ^ (-13 : ℤ)) :
    channelByte (Number.singleOfBits (single.sign false + single.round v)) = 0 := by
  rcases Number.ofSingle_nearest false hv with ⟨-, hbeyond⟩ | ⟨r, p, hread, hvalue, -⟩
  · have hless : (2 : ℚ) ^ (-13 : ℤ) < 1 := by norm_num
    linarith
  · refine channelByte_of_tiny hread (hvalue.trans_le ?_)
    exact Number.Format.valueOf_round_le_two_zpow hv (by decide) (by decide +kernel) hsmall

theorem channelByte_nearest_of_one_le {v : ℚ} (hlarge : 1 ≤ v) :
    channelByte (Number.singleOfBits (single.sign false + single.round v)) = 255 := by
  rcases Number.ofSingle_nearest false (zero_le_one.trans hlarge) with
    ⟨hread, -⟩ | ⟨r, p, hread, hvalue, hfinite⟩
  · exact channelByte_of_one_le (m := 0) (q := 0) (Or.inl hread)
  · have hone := Number.Format.two_zpow_le_valueOf_round (p := 0) (by decide) hfinite
      (by rwa [zpow_zero])
    rw [zpow_zero, ← hvalue] at hone
    exact channelByte_of_one_le (Or.inr ⟨hread, hone⟩)

/-- If a double is worked out for a decimal that stands for a channel, what comes out has the same
byte, as long as tiny decimals stay tiny, those from one on stay there, and those in between are not
changed. -/
theorem channelByte_narrow (hc : ofSingle c = .finite negative m q) (hm : 0 < m)
    (hround : single.RoundsTo d.value m q)
    (hexp : Int.log 10 ((m : ℚ) * 2 ^ q) - (8 : ℕ) ≤ d.exponent) (hw : 0 ≤ w)
    (hfinite : Number.double.round w < Number.double.infinity)
    (htiny : d.value ≤ 2 ^ (-13 : ℤ) → w ≤ 2 ^ (-13 : ℤ)) (hlarge : 1 ≤ d.value → 1 ≤ w)
    (hunit : 2 ^ (-13 : ℤ) ≤ (m : ℚ) * 2 ^ q → (m : ℚ) * 2 ^ q ≤ 1 → w = d.value) :
    channelByte (Number.narrow (Number.doubleOfBits
      (Number.double.sign negative + Number.double.round w))) = channelByte c := by
  have hnonneg := Number.double.valueOf_nonneg (Number.double.round w)
  cases negative with
  | true =>
      rw [Number.narrow_doubleOfBits true hfinite, channelByte_of_negative (Or.inr hc)]
      exact channelByte_nearest_of_negative hnonneg
  | false =>
      -- A tiny channel has the byte 0 and one from 1 on the byte 255, however it is rounded.  Only in
      -- between does reading have to give back the very channel that was printed.
      rcases lt_or_ge ((m : ℚ) * 2 ^ q) (2 ^ (-13 : ℤ)) with hsmall | hlower
      · rw [Number.narrow_doubleOfBits false hfinite, channelByte_of_tiny hc hsmall.le]
        have hw' := htiny (value_le_of_lt hround hm hsmall)
        exact channelByte_nearest_of_tiny hnonneg
          (Number.Format.valueOf_round_le_two_zpow hw (by decide) (by decide +kernel) hw')
      rcases lt_or_ge 1 ((m : ℚ) * 2 ^ q) with habove | hupper
      · rw [Number.narrow_doubleOfBits false hfinite, channelByte_of_one_le (Or.inr ⟨hc, habove.le⟩)]
        have hone := Number.Format.two_zpow_le_valueOf_round (p := 0) (by decide) hfinite
          (by rw [zpow_zero]; exact hlarge (one_le_value_of_lt hround habove))
        rw [zpow_zero] at hone
        exact channelByte_nearest_of_one_le hone
      · rw [hunit hlower hupper] at hfinite ⊢
        rw [narrow_eq_of_unit hc hm hround hexp hfinite hlower hupper]

end Narrowing

/-! ## What is worked out for the text of a channel -/

/-- Digits and a power of ten as they stand in the text of a channel, with their value. -/
structure IsPrinted (n : ℕ) (e : ℤ) (v : ℚ) : Prop where
  pos : 0 < n
  digits : n ≤ 10 ^ 17
  low : -(Number.topPower : ℤ) ≤ e
  high : e ≤ Number.topPower
  value : (n : ℚ) * 10 ^ e = v
  safe : v ≤ Number.safeBound

namespace IsPrinted

variable {n : ℕ} {e : ℤ} {v : ℚ}

theorem lt (h : IsPrinted n e v) : n < 2 ^ 64 :=
  h.digits.trans_lt (by decide)

theorem round_lt (h : IsPrinted n e v) :
    Number.double.round (Number.scaledValue n e) < Number.double.infinity :=
  Number.round_scaledValue_lt h.lt h.low h.high (h.value.trans_le h.safe)

theorem scaledBits?_eq (h : IsPrinted n e v) :
    Number.scaledBits? n e = some (Number.double.round (Number.scaledValue n e)) :=
  Number.scaledBits?_eq h.pos h.lt h.low h.high h.round_lt

theorem scaledValue_le (h : IsPrinted n e v) (hv : v ≤ 2 ^ (-13 : ℤ)) :
    Number.scaledValue n e ≤ 2 ^ (-13 : ℤ) := by
  have hneg : e < 0 := by
    by_contra hsign
    have hone : (1 : ℚ) ≤ n := by exact_mod_cast h.pos
    have hpow : (1 : ℚ) ≤ 10 ^ e := one_le_zpow₀ (by norm_num) (by omega)
    have hvalue := one_le_mul_of_one_le_of_one_le hone hpow
    rw [h.value] at hvalue
    have hless : (2 : ℚ) ^ (-13 : ℤ) < 1 := by norm_num
    linarith
  exact Number.scaledValue_le_of_tiny h.digits h.low hneg (h.value.trans_le hv)

theorem one_le_scaledValue (h : IsPrinted n e v) (hv : 1 ≤ v) : 1 ≤ Number.scaledValue n e :=
  Number.one_le_scaledValue h.lt h.low h.high (hv.trans_eq h.value.symm)

/-- With at most twelve places the double nearest to the decimal is worked out. -/
theorem scaledValue_eq (h : IsPrinted n e v) (he : -12 ≤ e) (hv : v ≤ 2) :
    Number.scaledValue n e = v := by
  have hone : (1 : ℚ) ≤ n := by exact_mod_cast h.pos
  have hhigh : e ≤ 0 := by
    by_contra hsign
    have hpow : (10 : ℚ) ^ (1 : ℤ) ≤ 10 ^ e := zpow_le_zpow_right₀ (by norm_num) (by omega)
    have hvalue := le_mul_of_one_le_left (by positivity) hone |>.trans' hpow
    rw [h.value] at hvalue
    linarith
  have hdigits : n < 2 ^ 53 := by
    have hpow : (10 : ℚ) ^ (-12 : ℤ) ≤ 10 ^ e := zpow_le_zpow_right₀ (by norm_num) he
    have hle : (n : ℚ) * 10 ^ (-12 : ℤ) ≤ 2 := by
      calc
        (n : ℚ) * 10 ^ (-12 : ℤ) ≤ n * 10 ^ e := by gcongr
        _ ≤ 2 := h.value.trans_le hv
    have hlt : (n : ℚ) < 2 ^ 53 := by
      rw [zpow_neg, ← div_eq_mul_inv, div_le_iff₀ (by positivity)] at hle
      refine hle.trans_lt ?_
      norm_num
    exact_mod_cast hlt
  rw [Number.scaledValue_eq hdigits (by omega) (by omega), h.value]

end IsPrinted

/-- The literal of a channel. -/
theorem isPrinted_of_denotes {l : Json.Literal} {d : Number.Decimal} {m : ℕ} {q : ℤ}
    (hdenotes : l.Denotes d) (hm : 0 < m) (hround : single.RoundsTo d.value m q)
    (hplace : single.place m q < single.infinity) (hdigits : d.digits ≤ 10 ^ 17)
    (hexp : Int.log 10 ((m : ℚ) * 2 ^ q) - (8 : ℕ) ≤ d.exponent) :
    IsPrinted l.significand l.power d.value where
  pos := hdenotes.significand_pos (lt_of_lt_of_le (by positivity) (hround.le_value hm))
  digits := hdenotes.significand_le.trans (max_le hdigits le_rfl)
  low := by
    have hone : (1 : ℚ) ≤ m := by exact_mod_cast hm
    have hpos : (0 : ℚ) < m * 2 ^ q := by positivity
    have hten : (10 : ℚ) ^ (-45 : ℤ) ≤ m * 2 ^ q := by
      calc
        (10 : ℚ) ^ (-45 : ℤ) ≤ 2 ^ (-149 : ℤ) := by norm_num
        _ ≤ 2 ^ q := zpow_le_zpow_right₀ (by norm_num) hround.least_le
        _ ≤ m * 2 ^ q := le_mul_of_one_le_left (by positivity) hone
    have hlog := (Int.zpow_le_iff_le_log (b := 10) (by decide) hpos).mp (by exact_mod_cast hten)
    have hpower := hdenotes.le_power
    change -308 ≤ l.power
    omega
  high := by
    have hv := hround.value_lt hplace
    rw [← hdenotes.value_eq] at hv
    have hone : (1 : ℚ) ≤ l.significand := by
      have hpos := hdenotes.significand_pos (lt_of_lt_of_le (by positivity) (hround.le_value hm))
      exact_mod_cast hpos
    have hpow : (10 : ℚ) ^ l.power < 10 ^ (40 : ℤ) := by
      calc
        (10 : ℚ) ^ l.power ≤ l.value := le_mul_of_one_le_left (by positivity) hone
        _ < 2 ^ (130 : ℤ) := hv
        _ ≤ 10 ^ (40 : ℤ) := by norm_num
    have hlt := (zpow_lt_zpow_iff_right₀ (by norm_num)).mp hpow
    change l.power ≤ 308
    omega
  value := hdenotes.value_eq
  safe := by
    have hv := hround.value_lt hplace
    have hsafe : ((2 ^ 130 : ℕ) : ℚ) ≤ Number.safeBound := by
      exact_mod_cast (show 2 ^ 130 ≤ Number.safeBound by decide +kernel)
    refine le_trans ?_ hsafe
    rw [Nat.cast_pow]
    exact hv.le

/-- A finite channel is printed as a number, and reading that number gives a channel with the same
byte.  If the channel is zero or lies between both ends, it is the very same channel. -/
theorem exists_reread {c : Float32} {negative : Bool} {m : ℕ} {q : ℤ}
    (hc : ofSingle c = .finite negative m q) :
    ∃ l n, Json.Literal.ofSingle? c = some l ∧ l.WellFormed ∧ l.number? = some n ∧
      channelByte n.toSingle = channelByte c ∧
      (m = 0 ∨ (2 ^ (-13 : ℤ) ≤ (m : ℚ) * 2 ^ q ∧ (m : ℚ) * 2 ^ q ≤ 1) → n.toSingle = c) := by
  obtain ⟨hcanonical, hplace, hbits⟩ := canonical_of_ofSingle_eq hc
  unfold Json.Literal.ofSingle? Json.Literal.ofDatum?
  rw [hc]
  dsimp only
  rcases Nat.eq_zero_or_pos m with rfl | hm
  · have hdenotes := Json.Literal.ofDecimal_denotes negative ⟨0, 0⟩
    have hsame : Number.narrow (Number.doubleOfBits (Number.double.sign negative)) = c := by
      rw [← Number.singleOfBits_toBits c, hbits, exponent_of_zero hcanonical]
      cases negative <;> decide
    exact ⟨_, _, if_pos rfl, hdenotes.wellFormed, Json.Literal.number?_ofDecimal_zero negative,
      congrArg channelByte hsame, fun _ => hsame⟩
  · obtain ⟨hround, hexp⟩ :=
      Number.shortest_spec .toEven hcanonical hm (n := 8) (by decide) (by decide)
    have hdigits := Number.shortest_digits_lt .toEven hcanonical hm (n := 8) (by decide) (by decide)
    set d := Number.shortest single .toEven m q
    have hdenotes := Json.Literal.ofDecimal_denotes negative d
    have hprinted := isPrinted_of_denotes hdenotes hm hround hplace (hdigits.le.trans (by decide)) hexp
    have hnumber := Json.Literal.number?_of_isDecimal hdenotes.isDecimal hprinted.lt
    rw [Json.Literal.ofDecimal_negative, hprinted.scaledBits?_eq] at hnumber
    have hunit : 2 ^ (-13 : ℤ) ≤ (m : ℚ) * 2 ^ q → (m : ℚ) * 2 ^ q ≤ 1 →
        Number.scaledValue (Json.Literal.ofDecimal negative d).significand
          (Json.Literal.ofDecimal negative d).power = d.value := by
      intro hlower hupper
      have hplaces := le_exponent_of_unit hlower hexp
      have hpower := hdenotes.le_power
      have htwo := hround.value_le hm
      exact hprinted.scaledValue_eq (by omega) (by linarith)
    refine ⟨_, _, if_neg hm.ne', hdenotes.wellFormed, hnumber,
      channelByte_narrow hc hm hround hexp (Number.scaledValue_nonneg _ _) hprinted.round_lt
        hprinted.scaledValue_le hprinted.one_le_scaledValue hunit, fun h => ?_⟩
    obtain ⟨hlower, hupper⟩ := h.resolve_left hm.ne'
    have hfinite := hprinted.round_lt
    rw [hunit hlower hupper] at hfinite
    change Number.narrow _ = c
    rw [hunit hlower hupper]
    exact narrow_eq_of_unit hc hm hround hexp hfinite hlower hupper

end Color
end DesignPages
