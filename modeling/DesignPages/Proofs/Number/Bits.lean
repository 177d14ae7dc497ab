import DesignPages.Proofs.Number.Rounding

/-!
# Bits of floating-point numbers

A floating-point number is determined by its bits, and its bits by the value that they stand for.
The exact values of the model agree with those that the arithmetic of the language works with.
-/

namespace DesignPages
namespace Number

open Float.Model (UnpackedFloat)
open Float.Model.UnpackedFloat (Sign packComponents pack unpack unpackExponent unpackMantissa
  unpackSign)

/-! ## Fields -/

section Fields

variable {S : Float.Model.Format}

theorem toNat_packComponents (s : Sign) (e : BitVec S.exponentBits)
    (m : BitVec S.mantissaBitsWithoutImplicit) :
    (packComponents S s e m).toNat =
      s.toBitVec.toNat * 2 ^ (S.mantissaBitsWithoutImplicit + S.exponentBits) +
        e.toNat * 2 ^ S.mantissaBitsWithoutImplicit + m.toNat := by
  unfold packComponents
  rw [BitVec.toNat_append, ← Nat.shiftLeft_add_eq_or_of_lt m.isLt, Nat.shiftLeft_eq,
    BitVec.toNat_append, ← Nat.shiftLeft_add_eq_or_of_lt e.isLt, Nat.shiftLeft_eq, add_mul,
    mul_assoc, ← pow_add, add_comm S.exponentBits]

theorem toNat_unpackMantissa (b : BitVec S.numBits) :
    (unpackMantissa b).toNat = b.toNat % 2 ^ S.mantissaBitsWithoutImplicit := by
  have hm := S.hm
  unfold unpackMantissa
  rw [BitVec.toNat_cast, BitVec.extractLsb_toNat, Nat.shiftRight_zero]
  congr 2
  omega

theorem toNat_unpackExponent (b : BitVec S.numBits) :
    (unpackExponent b).toNat =
      b.toNat / 2 ^ S.mantissaBitsWithoutImplicit % 2 ^ S.exponentBits := by
  have he := S.he
  unfold unpackExponent
  rw [BitVec.toNat_cast, BitVec.extractLsb_toNat, Nat.shiftRight_eq_div_pow]
  congr 2
  omega

theorem toNat_unpackSign (b : BitVec S.numBits) :
    (unpackSign b).toNat =
      b.toNat / 2 ^ (S.mantissaBitsWithoutImplicit + S.exponentBits) % 2 := by
  unfold unpackSign
  rw [BitVec.toNat_cast, BitVec.extractLsb_toNat, Nat.shiftRight_eq_div_pow]
  congr 1
  rw [Nat.sub_self, Nat.zero_add, pow_one]

/-! ## Exact values -/

/-- The format under the name that the language gives it. -/
abbrev formatOf (S : Float.Model.Format) : Format :=
  ⟨S.mantissaBitsWithoutImplicit, S.exponentBits⟩

/-- The sign under the name that the language gives it. -/
def signOf (negative : Bool) : Sign :=
  if negative then .negative else .positive

/-- An exact value as the language takes numbers apart. -/
def Datum.unpacked : Datum → UnpackedFloat
  | .nan => .notANumber
  | .infinite negative => .infinity (signOf negative)
  | .finite negative m q =>
    if h : m = 0 then .zero (signOf negative)
    else .finite (signOf negative) m q (Nat.pos_of_ne_zero h)

theorem ofBitVec_unpackSign (b : BitVec S.numBits) :
    Sign.ofBitVec (unpackSign b) =
      signOf (b.toNat / twoPow (S.mantissaBitsWithoutImplicit + S.exponentBits) % 2 == 1) := by
  have hzero : unpackSign b = 0#1 ↔ (unpackSign b).toNat = 0 := by
    rw [← BitVec.toNat_inj]
    rfl
  have hlt := (unpackSign b).isLt
  rw [Sign.ofBitVec, signOf]
  simp only [hzero, toNat_unpackSign] at hlt ⊢
  rw [show twoPow (S.mantissaBitsWithoutImplicit + S.exponentBits) =
    2 ^ (S.mantissaBitsWithoutImplicit + S.exponentBits) from rfl]
  by_cases h : b.toNat / 2 ^ (S.mantissaBitsWithoutImplicit + S.exponentBits) % 2 = 0
  · rw [if_pos h, h]
    rfl
  · have hone : b.toNat / 2 ^ (S.mantissaBitsWithoutImplicit + S.exponentBits) % 2 = 1 := by omega
    rw [if_neg h, hone]
    rfl

theorem unpackExponent_eq_neg_one_iff (b : BitVec S.numBits) :
    unpackExponent b = -1#S.exponentBits ↔
      b.toNat / twoPow S.mantissaBitsWithoutImplicit % twoPow S.exponentBits =
        (formatOf S).specialExponent := by
  rw [← BitVec.toNat_inj, toNat_unpackExponent, BitVec.neg_one_eq_allOnes, BitVec.toNat_allOnes]
  rfl

theorem unpackMantissa_eq_zero_iff (b : BitVec S.numBits) :
    unpackMantissa b = 0#S.mantissaBitsWithoutImplicit ↔
      b.toNat % twoPow S.mantissaBitsWithoutImplicit = 0 := by
  rw [← BitVec.toNat_inj, toNat_unpackMantissa]
  rfl

theorem unpackExponent_eq_zero_iff (b : BitVec S.numBits) :
    unpackExponent b = 0#S.exponentBits ↔
      b.toNat / twoPow S.mantissaBitsWithoutImplicit % twoPow S.exponentBits = 0 := by
  rw [← BitVec.toNat_inj, toNat_unpackExponent]
  rfl

/-- The exponent without the bias of the format. -/
theorem unbiased_unpackExponent (b : BitVec S.numBits) :
    ((unpackExponent b).toNat : ℤ) - (S.exponentBias + S.mantissaBitsWithoutImplicit) =
      (formatOf S).leastExponent +
        (b.toNat / twoPow S.mantissaBitsWithoutImplicit % twoPow S.exponentBits : ℕ) - 1 := by
  have hbias : ((S.exponentBias + S.mantissaBitsWithoutImplicit : ℕ) : ℤ) =
      1 - (formatOf S).leastExponent := by
    have hpos : 1 ≤ 2 ^ (S.exponentBits - 1) := Nat.one_le_two_pow
    have hpow : (twoPow (S.exponentBits - 1) : ℤ) = ((2 ^ (S.exponentBits - 1) : ℕ) : ℤ) := rfl
    unfold Float.Model.Format.exponentBias Format.leastExponent formatOf
    dsimp only
    rw [hpow]
    omega
  rw [toNat_unpackExponent]
  push_cast at hbias
  rw [hbias]
  simp only [twoPow, Nat.pow_eq]
  omega

theorem unpack_eq_datum (b : BitVec S.numBits) :
    unpack S b = ((formatOf S).datum b.toNat).unpacked := by
  have hmantissa := unpackMantissa_eq_zero_iff b
  have hzero := unpackExponent_eq_zero_iff b
  have hexponent := unbiased_unpackExponent b
  unfold unpack Format.datum Format.fields
  dsimp only
  rw [ofBitVec_unpackSign]
  by_cases hspecial : b.toNat / twoPow S.mantissaBitsWithoutImplicit % twoPow S.exponentBits =
      (formatOf S).specialExponent
  · have hs := (unpackExponent_eq_neg_one_iff b).mpr hspecial
    by_cases hm : b.toNat % twoPow S.mantissaBitsWithoutImplicit = 0
    · rw [if_pos hs, if_pos (hmantissa.mpr hm), if_pos hspecial, if_pos hm]
      rfl
    · rw [if_pos hs, if_neg (mt hmantissa.mp hm), if_pos hspecial, if_neg hm]
      rfl
  · have hs := mt (unpackExponent_eq_neg_one_iff b).mp hspecial
    rw [if_neg hs, if_neg hspecial]
    by_cases he : b.toNat / twoPow S.mantissaBitsWithoutImplicit % twoPow S.exponentBits = 0
    · rw [if_pos (hzero.mpr he), if_pos he, Datum.unpacked]
      by_cases hm : b.toNat % twoPow S.mantissaBitsWithoutImplicit = 0
      · rw [dif_pos (hmantissa.mpr hm), dif_pos hm]
      · rw [dif_neg (mt hmantissa.mp hm), dif_neg hm]
        congr 1
        · exact toNat_unpackMantissa b
        · rw [hexponent, he]
          omega
    · have hpos : twoPow S.mantissaBitsWithoutImplicit +
          b.toNat % twoPow S.mantissaBitsWithoutImplicit ≠ 0 := by
        have htwo := twoPow_pos S.mantissaBitsWithoutImplicit
        omega
      rw [if_neg (mt hzero.mp he), if_neg he, Datum.unpacked, dif_neg hpos]
      congr 1
      rw [BitVec.toNat_append, ← Nat.shiftLeft_add_eq_or_of_lt (unpackMantissa b).isLt,
        Nat.shiftLeft_eq, toNat_unpackMantissa]
      simp [twoPow]

/-! ## Taking apart and putting together -/

theorem packComponents_unpack (b : BitVec S.numBits) :
    packComponents S (Sign.ofBitVec (unpackSign b)) (unpackExponent b) (unpackMantissa b) = b := by
  have hsign : (Sign.ofBitVec (unpackSign b)).toBitVec = unpackSign b := by
    have hcases : ∀ c : BitVec 1, (Sign.ofBitVec c).toBitVec = c := by decide
    exact hcases _
  apply BitVec.eq_of_toNat_eq
  rw [toNat_packComponents, hsign, toNat_unpackSign, toNat_unpackExponent, toNat_unpackMantissa]
  have hlt : b.toNat / 2 ^ (S.mantissaBitsWithoutImplicit + S.exponentBits) < 2 := by
    rw [Nat.div_lt_iff_lt_mul (by positivity)]
    calc
      b.toNat < 2 ^ S.numBits := b.isLt
      _ = 2 ^ (1 + (S.mantissaBitsWithoutImplicit + S.exponentBits)) := by
        congr 1
        simp only [Float.Model.Format.numBits]
        omega
      _ = 2 * 2 ^ (S.mantissaBitsWithoutImplicit + S.exponentBits) := by rw [pow_add, pow_one]
  rw [Nat.mod_eq_of_lt hlt]
  have hlow := Nat.div_add_mod b.toNat (2 ^ S.mantissaBitsWithoutImplicit)
  have hhigh := Nat.div_add_mod (b.toNat / 2 ^ S.mantissaBitsWithoutImplicit) (2 ^ S.exponentBits)
  rw [Nat.div_div_eq_div_mul, ← pow_add] at hhigh
  calc
    _ = 2 ^ S.mantissaBitsWithoutImplicit * (2 ^ S.exponentBits *
          (b.toNat / 2 ^ (S.mantissaBitsWithoutImplicit + S.exponentBits)) +
          b.toNat / 2 ^ S.mantissaBitsWithoutImplicit % 2 ^ S.exponentBits) +
        b.toNat % 2 ^ S.mantissaBitsWithoutImplicit := by
      rw [pow_add]
      ring
    _ = b.toNat := by rw [hhigh, hlow]

theorem toNat_implicit_append (m : BitVec S.mantissaBitsWithoutImplicit) :
    (1#1 ++ m).toNat = 2 ^ S.mantissaBitsWithoutImplicit + m.toNat := by
  rw [BitVec.toNat_append, ← Nat.shiftLeft_add_eq_or_of_lt m.isLt, Nat.shiftLeft_eq]
  simp

theorem pack_unpack_of_zero (hwide : 2 ≤ S.exponentBits) {b : BitVec S.numBits}
    (hspecial : unpackExponent b ≠ -1#S.exponentBits)
    (hzero : unpackExponent b = 0#S.exponentBits) : pack S (unpack S b) = b := by
  have hwhole := packComponents_unpack b
  unfold unpack
  dsimp only
  rw [if_neg hspecial, if_pos hzero]
  by_cases hm : unpackMantissa b = 0#S.mantissaBitsWithoutImplicit
  · rw [dif_pos hm]
    rw [hzero, hm] at hwhole
    exact hwhole
  · rw [dif_neg hm]
    have hlt := (unpackMantissa b).isLt
    have hne : (unpackMantissa b).toNat ≠ 0 := by
      intro h
      exact hm (BitVec.eq_of_toNat_eq h)
    have hlog := (Nat.log2_lt hne).mpr hlt
    unfold pack
    dsimp only
    rw [if_neg, if_neg, BitVec.ofNat_toNat, BitVec.setWidth_eq, ← hzero]
    · exact hwhole
    · have hbits : S.mantissaBits = 1 + S.mantissaBitsWithoutImplicit := rfl
      omega
    · have hfour : 4 ≤ 2 ^ S.exponentBits := Nat.pow_le_pow_right (n := 2) (by decide) hwide
      rw [hzero, BitVec.toNat_zero]
      omega

theorem pack_unpack_of_ne_zero {b : BitVec S.numBits}
    (hspecial : unpackExponent b ≠ -1#S.exponentBits)
    (hzero : unpackExponent b ≠ 0#S.exponentBits) : pack S (unpack S b) = b := by
  have hlt := (unpackMantissa b).isLt
  have hlog : ((1#1 ++ unpackMantissa b).toNat).log2 = S.mantissaBitsWithoutImplicit := by
    rw [toNat_implicit_append, Nat.log2_eq_iff (by positivity)]
    constructor
    · omega
    · rw [pow_succ]
      omega
  have hlength : (1#1 ++ unpackMantissa b).toNat.log2 + 1 = S.mantissaBits := by
    rw [hlog, add_comm]
    rfl
  have hmantissa : BitVec.ofNat S.mantissaBitsWithoutImplicit
      (1#1 ++ unpackMantissa b).toNat = unpackMantissa b := by
    apply BitVec.eq_of_toNat_eq
    rw [toNat_implicit_append, BitVec.toNat_ofNat, Nat.add_mod_left, Nat.mod_eq_of_lt hlt]
  have hexp := (unpackExponent b).isLt
  have hne : (unpackExponent b).toNat ≠ 2 ^ S.exponentBits - 1 := by
    intro h
    apply hspecial
    apply BitVec.eq_of_toNat_eq
    rw [h, BitVec.neg_one_eq_allOnes, BitVec.toNat_allOnes]
  have hbiased : (((unpackExponent b).toNat : ℤ) -
      (S.exponentBias + S.mantissaBitsWithoutImplicit) + S.exponentBias +
      S.mantissaBitsWithoutImplicit).toNat = (unpackExponent b).toNat := by
    omega
  unfold unpack
  dsimp only
  rw [if_neg hspecial, if_neg hzero]
  unfold pack
  dsimp only
  rw [hbiased, if_neg (by omega), if_pos hlength, BitVec.ofNat_toNat, BitVec.setWidth_eq, hmantissa]
  exact packComponents_unpack b

theorem pack_unpack (hwide : 2 ≤ S.exponentBits) {b : BitVec S.numBits} (hb : S.Valid b) :
    pack S (unpack S b) = b := by
  by_cases hspecial : unpackExponent b = -1#S.exponentBits
  · have hwhole := packComponents_unpack b
    unfold unpack
    dsimp only
    rw [if_pos hspecial]
    by_cases hm : unpackMantissa b = 0#S.mantissaBitsWithoutImplicit
    · rw [if_pos hm]
      rw [hspecial, hm] at hwhole
      exact hwhole
    · rw [if_neg hm]
      exact (hb.eq_packedNaN hspecial hm).symm
  · by_cases hzero : unpackExponent b = 0#S.exponentBits
    · exact pack_unpack_of_zero hwide hspecial hzero
    · exact pack_unpack_of_ne_zero hspecial hzero

end Fields

namespace Format

variable {f : Format}

theorem twoPow_add (a b : ℕ) : twoPow (a + b) = twoPow a * twoPow b :=
  pow_add 2 a b

theorem infinity_lt (f : Format) : f.infinity < twoPow (f.fractionBits + f.exponentBits) := by
  rw [twoPow_add, mul_comm]
  apply Nat.mul_lt_mul_of_pos_right _ (twoPow_pos _)
  have hpos := twoPow_pos f.exponentBits
  unfold specialExponent
  omega

/-- The sign and the bits below it do not touch. -/
theorem fields_sign_add (negative : Bool) {b : ℕ}
    (hb : b < twoPow (f.fractionBits + f.exponentBits)) :
    ((f.sign negative + b) / twoPow (f.fractionBits + f.exponentBits) % 2 == 1) = negative ∧
      f.fields (f.sign negative + b) = (b / twoPow f.fractionBits, b % twoPow f.fractionBits) := by
  have hquotient : b / twoPow f.fractionBits < twoPow f.exponentBits := by
    rw [Nat.div_lt_iff_lt_mul (twoPow_pos _), mul_comm, ← twoPow_add]
    exact hb
  cases negative with
  | false =>
      rw [sign, if_neg Bool.false_ne_true, zero_add, Nat.div_eq_of_lt hb]
      exact ⟨rfl, by rw [fields, Nat.mod_eq_of_lt hquotient]⟩
  | true =>
      rw [sign, if_pos rfl]
      constructor
      · rw [Nat.add_div_left _ (twoPow_pos _), Nat.div_eq_of_lt hb]
        rfl
      · rw [fields, twoPow_add, Nat.mul_add_mod, Nat.mul_add_div (twoPow_pos _),
          Nat.add_mod_left, Nat.mod_eq_of_lt hquotient]

/-- The value of bits that stand for a number of the format. -/
theorem datum_sign_add_place {m : ℕ} {q : ℤ} (negative : Bool) (h : f.Canonical m q)
    (hfinite : f.place m q < f.infinity) :
    f.datum (f.sign negative + f.place m q) = .finite negative m q := by
  obtain ⟨hsign, hfields⟩ := fields_sign_add negative (hfinite.trans f.infinity_lt)
  have hpos := twoPow_pos f.fractionBits
  have hleast := h.least_le
  unfold datum
  rw [hfields, hsign]
  dsimp only
  by_cases hm : m < twoPow f.fractionBits
  · have hq : q = f.leastExponent := by
      by_contra hne
      have hfull := h.full (lt_of_le_of_ne hleast (Ne.symm hne))
      exact absurd hm (not_lt.mpr hfull)
    have hplace : f.place m q = m := by
      rw [place, hq, sub_self, Int.toNat_zero, zero_mul, zero_add]
    have hspecial : 0 ≠ f.specialExponent := by
      intro hzero
      rw [infinity, ← hzero, zero_mul] at hfinite
      exact absurd hfinite (Nat.not_lt_zero _)
    rw [hplace, Nat.div_eq_of_lt hm, Nat.mod_eq_of_lt hm, if_neg hspecial, if_pos rfl, hq]
  · obtain ⟨r, rfl⟩ := Nat.exists_eq_add_of_le (not_lt.mp hm)
    obtain ⟨k, hk⟩ := Int.eq_ofNat_of_zero_le (Int.sub_nonneg_of_le hleast)
    have hr : r < twoPow f.fractionBits := by
      have hfits : twoPow f.fractionBits + r < 2 * twoPow f.fractionBits := by
        have hpow : (2 : ℕ) ^ (f.fractionBits + 1) = 2 * twoPow f.fractionBits := pow_succ' 2 _
        rw [← hpow]
        exact h.fits
      omega
    have hplace : f.place (twoPow f.fractionBits + r) q =
        twoPow f.fractionBits * (k + 1) + r := by
      rw [place, hk, Int.toNat_natCast]
      ring
    have hspecial : k + 1 ≠ f.specialExponent := by
      intro heq
      rw [hplace, infinity, ← heq, mul_comm] at hfinite
      omega
    rw [hplace, Nat.mul_add_div hpos, Nat.mul_add_mod, Nat.div_eq_of_lt hr, Nat.mod_eq_of_lt hr,
      add_zero, if_neg hspecial, if_neg (Nat.succ_ne_zero k)]
    congr 1
    push_cast
    omega

/-- Numbers of the format are told apart by their bits. -/
theorem eq_of_place_eq {m n : ℕ} {q p : ℤ} (hm : f.Canonical m q) (hn : f.Canonical n p)
    (hfinite : f.place m q < f.infinity) (h : f.place m q = f.place n p) : m = n ∧ q = p := by
  have hleft := datum_sign_add_place false hm hfinite
  have hright := datum_sign_add_place false hn (h ▸ hfinite)
  rw [← h, hleft] at hright
  injection hright with _ hmn hqp
  exact ⟨hmn, hqp⟩

theorem datum_sign_add_infinity (negative : Bool) :
    f.datum (f.sign negative + f.infinity) = .infinite negative := by
  obtain ⟨hsign, hfields⟩ := fields_sign_add negative f.infinity_lt
  unfold datum
  rw [hfields, hsign]
  dsimp only
  rw [infinity, Nat.mul_div_left _ (twoPow_pos _), Nat.mul_mod_left, if_pos rfl, if_pos rfl]

theorem sign_add_lt (negative : Bool) {b : ℕ} (hb : b < twoPow (f.fractionBits + f.exponentBits)) :
    f.sign negative + b < 2 * twoPow (f.fractionBits + f.exponentBits) := by
  unfold sign
  split_ifs <;> omega

/-- Bits are put together from the sign and the two fields. -/
theorem eq_sign_add_fields {b : ℕ} (hb : b < 2 * twoPow (f.fractionBits + f.exponentBits)) :
    b = f.sign (b / twoPow (f.fractionBits + f.exponentBits) % 2 == 1) +
      ((f.fields b).1 * twoPow f.fractionBits + (f.fields b).2) := by
  have hbelow : b % twoPow (f.fractionBits + f.exponentBits) =
      (f.fields b).1 * twoPow f.fractionBits + (f.fields b).2 := by
    rw [fields, twoPow_add, Nat.mod_mul]
    ring
  have hsignlt : b / twoPow (f.fractionBits + f.exponentBits) < 2 := by
    rw [Nat.div_lt_iff_lt_mul (twoPow_pos _)]
    exact hb
  have hsplit := Nat.div_add_mod b (twoPow (f.fractionBits + f.exponentBits))
  rw [hbelow] at hsplit
  rw [Nat.mod_eq_of_lt hsignlt]
  generalize b / twoPow (f.fractionBits + f.exponentBits) = s at hsplit hsignlt
  obtain rfl | rfl : s = 0 ∨ s = 1 := by omega
  · rw [sign, if_neg (by decide)]
    omega
  · rw [sign, if_pos (by decide)]
    omega

theorem two_pow_succ_fractionBits : (2 : ℕ) ^ (f.fractionBits + 1) = 2 * twoPow f.fractionBits :=
  pow_succ' 2 _

/-- A number whose exponent field is zero. -/
theorem canonical_of_zero {r : ℕ} (hr : r < twoPow f.fractionBits) :
    f.Canonical r f.leastExponent ∧ f.place r f.leastExponent = r := by
  have hpow := two_pow_succ_fractionBits (f := f)
  refine ⟨⟨by omega, le_rfl, fun h => absurd h (lt_irrefl _)⟩, ?_⟩
  rw [place, sub_self, Int.toNat_zero, zero_mul, zero_add]

/-- A number whose exponent field is not zero, and whose first digit is left out. -/
theorem canonical_of_succ {r k : ℕ} (hr : r < twoPow f.fractionBits) :
    f.Canonical (twoPow f.fractionBits + r) (f.leastExponent + k) ∧
      f.place (twoPow f.fractionBits + r) (f.leastExponent + k) =
        (k + 1) * twoPow f.fractionBits + r := by
  have hpow := two_pow_succ_fractionBits (f := f)
  refine ⟨⟨by omega, by omega, fun _ => Nat.le_add_right _ _⟩, ?_⟩
  have hdiff : (f.leastExponent + k - f.leastExponent).toNat = k := by omega
  rw [place, hdiff]
  ring

/-- Bits that stand for a finite value are those of a number of the format. -/
theorem eq_of_datum_eq_finite {b m : ℕ} {q : ℤ} {negative : Bool}
    (hb : b < 2 * twoPow (f.fractionBits + f.exponentBits))
    (h : f.datum b = .finite negative m q) :
    f.Canonical m q ∧ f.place m q < f.infinity ∧ b = f.sign negative + f.place m q := by
  have hfraction : (f.fields b).2 < twoPow f.fractionBits := Nat.mod_lt _ (twoPow_pos _)
  have hexponent : (f.fields b).1 < twoPow f.exponentBits := Nat.mod_lt _ (twoPow_pos _)
  have hsplit := eq_sign_add_fields hb
  unfold datum at h
  dsimp only at h
  by_cases hspecial : (f.fields b).1 = f.specialExponent
  · rw [if_pos hspecial] at h
    split at h <;> exact absurd h (by simp)
  rw [if_neg hspecial] at h
  have hbelow : (f.fields b).1 < f.specialExponent := by
    unfold specialExponent at hspecial ⊢
    omega
  have hfinite : (f.fields b).1 * twoPow f.fractionBits + (f.fields b).2 < f.infinity := by
    calc
      _ < ((f.fields b).1 + 1) * twoPow f.fractionBits := by
        rw [Nat.add_mul, Nat.one_mul]
        omega
      _ ≤ f.specialExponent * twoPow f.fractionBits := Nat.mul_le_mul_right _ hbelow
  cases hk : (f.fields b).1 with
  | zero =>
      obtain ⟨hcanonical, hplace⟩ := canonical_of_zero hfraction
      rw [hk, zero_mul, zero_add] at hsplit hfinite
      rw [if_pos hk] at h
      injection h with hnegative hm hq
      subst hnegative hm hq
      exact ⟨hcanonical, hplace.trans_lt hfinite, by rw [hplace]; exact hsplit⟩
  | succ k =>
      obtain ⟨hcanonical, hplace⟩ := canonical_of_succ (k := k) hfraction
      rw [hk] at hsplit hfinite
      rw [if_neg (by omega)] at h
      injection h with hnegative hm hq
      have hlast : f.leastExponent + k = q := by omega
      subst hnegative hm hlast
      exact ⟨hcanonical, hplace.trans_lt hfinite, by rw [hplace]; exact hsplit⟩

end Format

/-! ## Doubles and singles -/

theorem valid_of_datum_ne_nan {S : Float.Model.Format} {b : BitVec S.numBits}
    (h : (formatOf S).datum b.toNat ≠ .nan) :
    S.Valid b := by
  constructor
  intro hspecial hmantissa
  exfalso
  apply h
  have hs := (unpackExponent_eq_neg_one_iff b).mp hspecial
  have hm : ¬b.toNat % twoPow S.mantissaBitsWithoutImplicit = 0 := by
    intro hzero
    apply hmantissa
    apply BitVec.eq_of_toNat_eq
    rw [toNat_unpackMantissa]
    exact hzero
  unfold Format.datum Format.fields
  dsimp only
  rw [if_pos hs, if_neg hm]

theorem toBits_doubleOfBits {b : ℕ}
    (h : Float.Model.Format.binary64.Valid (UInt64.ofNat b).toBitVec) :
    (doubleOfBits b).toBits = UInt64.ofNat b :=
  congrArg UInt64.ofBitVec (pack_unpack (S := .binary64) (by decide) h)

theorem toBits_singleOfBits {b : ℕ}
    (h : Float.Model.Format.binary32.Valid (UInt32.ofNat b).toBitVec) :
    (singleOfBits b).toBits = UInt32.ofNat b :=
  congrArg UInt32.ofBitVec (pack_unpack (S := .binary32) (by decide) h)

theorem double_eq_of_toBits_eq {x y : Float} (h : x.toBits = y.toBits) : x = y := by
  obtain ⟨⟨a, ha⟩⟩ := x
  obtain ⟨⟨b, hb⟩⟩ := y
  obtain rfl : a = b := h
  rfl

theorem single_eq_of_toBits_eq {x y : Float32} (h : x.toBits = y.toBits) : x = y := by
  obtain ⟨⟨a, ha⟩⟩ := x
  obtain ⟨⟨b, hb⟩⟩ := y
  obtain rfl : a = b := h
  rfl

/-- A double is determined by its bits. -/
theorem doubleOfBits_toBits (x : Float) : doubleOfBits x.toBits.toNat = x := by
  apply double_eq_of_toBits_eq
  rw [toBits_doubleOfBits, UInt64.ofNat_toNat]
  rw [UInt64.ofNat_toNat]
  exact x.toModel.valid

/-- A single is determined by its bits. -/
theorem singleOfBits_toBits (x : Float32) : singleOfBits x.toBits.toNat = x := by
  apply single_eq_of_toBits_eq
  rw [toBits_singleOfBits, UInt32.ofNat_toNat]
  rw [UInt32.ofNat_toNat]
  exact x.toModel.valid

theorem ofDouble_doubleOfBits {b : ℕ} (hb : b < 2 ^ 64) (h : double.datum b ≠ .nan) :
    ofDouble (doubleOfBits b) = double.datum b := by
  have hnat : (UInt64.ofNat b).toNat = b := Nat.mod_eq_of_lt hb
  have hvalid : Float.Model.Format.binary64.Valid (UInt64.ofNat b).toBitVec := by
    apply valid_of_datum_ne_nan
    rw [UInt64.toNat_toBitVec, hnat]
    exact h
  rw [ofDouble, toBits_doubleOfBits hvalid, hnat]

theorem ofSingle_singleOfBits {b : ℕ} (hb : b < 2 ^ 32) (h : single.datum b ≠ .nan) :
    ofSingle (singleOfBits b) = single.datum b := by
  have hnat : (UInt32.ofNat b).toNat = b := Nat.mod_eq_of_lt hb
  have hvalid : Float.Model.Format.binary32.Valid (UInt32.ofNat b).toBitVec := by
    apply valid_of_datum_ne_nan
    rw [UInt32.toNat_toBitVec, hnat]
    exact h
  rw [ofSingle, toBits_singleOfBits hvalid, hnat]

/-- The language takes a single apart as the model does. -/
theorem unpack_single (x : Float32) : x.toModel.unpack = (ofSingle x).unpacked :=
  unpack_eq_datum (S := .binary32) x.toModel.toBits.toBitVec

theorem singleOfBits_eq_pack {b : ℕ} (hb : b < 2 ^ 32) :
    singleOfBits b = .ofModel (.pack (single.datum b).unpacked) := by
  have hnat : (UInt32.ofNat b).toBitVec.toNat = b := Nat.mod_eq_of_lt hb
  have hunpack : unpack .binary32 (UInt32.ofNat b).toBitVec = (single.datum b).unpacked := by
    rw [unpack_eq_datum, hnat]
    rfl
  unfold singleOfBits Float32.ofBits Float32.Model.ofBits
  rw [hunpack]

/-- Packing a number of the format gives the single with its value. -/
theorem ofSingle_pack {m : ℕ} {q : ℤ} (negative : Bool) (h : single.Canonical m q)
    (hfinite : single.place m q < single.infinity) :
    ofSingle (.ofModel (.pack (Datum.finite negative m q).unpacked)) = .finite negative m q := by
  have hdatum := Format.datum_sign_add_place negative h hfinite
  have hlt : single.sign negative + single.place m q < 2 ^ 32 :=
    Format.sign_add_lt (f := single) negative (hfinite.trans (Format.infinity_lt _))
  have hpack := singleOfBits_eq_pack hlt
  rw [hdatum] at hpack
  rw [← hpack, ofSingle_singleOfBits hlt (by rw [hdatum]; simp), hdatum]

/-! ## Finite values -/

/-- Whether a value is a number, neither infinite nor NaN. -/
def Datum.isFinite : Datum → Bool
  | .finite _ _ _ => true
  | _ => false

theorem Datum.isFinite_iff {d : Datum} :
    d.isFinite = true ↔ ∃ negative m q, d = .finite negative m q := by
  cases d <;> simp [isFinite]

theorem Format.isFinite_datum {f : Format} (negative : Bool) {b : ℕ} (hb : b < f.infinity) :
    (f.datum (f.sign negative + b)).isFinite = true := by
  obtain ⟨-, hfields⟩ := f.fields_sign_add negative (hb.trans f.infinity_lt)
  have hspecial : b / twoPow f.fractionBits ≠ f.specialExponent := by
    have hlt : b / twoPow f.fractionBits < f.specialExponent := by
      rw [Nat.div_lt_iff_lt_mul (twoPow_pos _)]
      exact hb
    exact hlt.ne
  unfold datum
  rw [hfields]
  dsimp only
  rw [if_neg hspecial]
  split <;> rfl

theorem isFinite_doubleOfBits (negative : Bool) {b : ℕ} (hb : b < double.infinity) :
    (ofDouble (doubleOfBits (double.sign negative + b))).isFinite = true := by
  have hfinite := Format.isFinite_datum negative hb
  have hlt : double.sign negative + b < 2 ^ 64 :=
    Format.sign_add_lt (f := double) negative (hb.trans (Format.infinity_lt _))
  rw [ofDouble_doubleOfBits hlt fun hnan => by rw [hnan] at hfinite; exact absurd hfinite (by decide)]
  exact hfinite

end Number
end DesignPages
