import DesignPages.Json.Literal
import DesignPages.Proofs.Number.Scaling

/-!
# Number literals

The literals in which numbers are written keep to the grammar of JSON, and what is worked out for them
is finite: a literal that is written for a finite double denotes a double, though not always that one.
-/

namespace DesignPages

open Number (Decimal digitCount)

namespace Json

/-! ## Digits -/

theorem digitsValue_append (xs ys : List Char) :
    digitsValue (xs ++ ys) = 10 ^ ys.length * digitsValue xs + digitsValue ys := by
  change Nat.ofDigitChars 10 (xs ++ ys) 0 = _
  rw [Nat.ofDigitChars_append, Nat.ofDigitChars_eq_ofDigitChars_zero]
  rfl

@[simp] theorem digitsValue_toDigits (n : ℕ) : digitsValue (Nat.toDigits 10 n) = n :=
  Nat.ofDigitChars_ten_toDigits

@[simp] theorem digitsValue_zeros (k : ℕ) : digitsValue (List.replicate k '0') = 0 :=
  Nat.ofDigitChars_replicate_zero.trans (Nat.mul_zero _)

theorem digitsValue_lt {ds : List Char} (h : ∀ c ∈ ds, c.isDigit = true) :
    digitsValue ds < 10 ^ ds.length := by
  induction ds with
  | nil => decide
  | cons c ds ih =>
      have htail := ih fun d hd => h d (List.mem_cons_of_mem _ hd)
      have hdigit : digitsValue [c] ≤ 9 := by
        have hc := h c List.mem_cons_self
        have hbound : c.val.toNat ≤ 57 := by
          simp only [Char.isDigit, Bool.and_eq_true, decide_eq_true_eq] at hc
          exact hc.2
        change 10 * 0 + (c.val.toNat - 48) ≤ 9
        omega
      have hsplit := digitsValue_append [c] ds
      rw [List.singleton_append] at hsplit
      rw [hsplit, List.length_cons, pow_succ]
      have hmul := Nat.mul_le_mul_left (10 ^ ds.length) hdigit
      omega

theorem isDigit_of_mem_toDigits {n : ℕ} {c : Char} (h : c ∈ Nat.toDigits 10 n) :
    c.isDigit = true :=
  Nat.isDigit_of_mem_toDigits (by decide) (by decide) h

theorem isDigit_of_mem_zeros {k : ℕ} {c : Char} (h : c ∈ List.replicate k '0') :
    c.isDigit = true := by
  rw [List.eq_of_mem_replicate h]
  rfl

/-- The digits of a positive number do not begin with a zero. -/
theorem head_toDigits_ne_zero {n : ℕ} (hn : 0 < n) : (Nat.toDigits 10 n).head? ≠ some '0' := by
  intro hhead
  obtain ⟨ds, hds⟩ : ∃ ds, Nat.toDigits 10 n = '0' :: ds := by
    cases h : Nat.toDigits 10 n with
    | nil => rw [h] at hhead; exact absurd hhead (by simp)
    | cons d ds =>
        rw [h, List.head?_cons, Option.some_inj] at hhead
        exact ⟨ds, by rw [hhead]⟩
  have hvalue : n = digitsValue ds := by
    have hall := digitsValue_toDigits n
    have hsplit := digitsValue_append ['0'] ds
    rw [List.singleton_append] at hsplit
    rw [hds, hsplit] at hall
    rw [← hall, show digitsValue ['0'] = 0 from rfl]
    omega
  have hlt := digitsValue_lt fun d hd =>
    isDigit_of_mem_toDigits (n := n) (by rw [hds]; exact List.mem_cons_of_mem _ hd)
  obtain ⟨-, hlow, -⟩ := Number.digitCount_bounds hn
  have hlength : digitCount n - 1 = ds.length := by
    rw [digitCount, hds, List.length_cons]
    rfl
  rw [hlength] at hlow
  omega

namespace Literal

/-- The grammar of number literals. -/
structure WellFormed (l : Literal) : Prop where
  whole_ne_nil : l.whole ≠ []
  whole_digits : ∀ c ∈ l.whole, c.isDigit = true
  whole_zero : l.whole.head? = some '0' → l.whole = ['0']
  fraction_digits : ∀ c ∈ l.fraction, c.isDigit = true
  exponent_digits : ∀ s ds, l.exponent = some (s, ds) → ds ≠ [] ∧ ∀ c ∈ ds, c.isDigit = true

/-- All digits of a literal, as a number. -/
def significand (l : Literal) : ℕ :=
  digitsValue (l.whole ++ l.fraction)

/-- The power of ten that the digits are multiplied with. -/
def power (l : Literal) : ℤ :=
  l.scale - l.fraction.length

/-- The number that the parts of a literal denote, without the sign. -/
def value (l : Literal) : ℚ :=
  l.significand * 10 ^ l.power

/-- A literal with a point or an exponent, which denotes no integer. -/
def IsDecimal (l : Literal) : Prop :=
  l.fraction ≠ [] ∨ l.exponent ≠ none

/-! ## Decimals laid out -/

/-- The literal keeps to the grammar, denotes no integer, and has the value of the decimal.  It has no
more digits and places than the decimal, but for the zeros that a whole number ends with. -/
structure Denotes (l : Literal) (d : Decimal) : Prop where
  wellFormed : l.WellFormed
  isDecimal : l.IsDecimal
  value_eq : l.value = d.value
  significand_le : l.significand ≤ max d.digits (10 ^ 17)
  le_power : min d.exponent (-1) ≤ l.power

theorem Denotes.significand_pos {l : Literal} {d : Decimal} (h : l.Denotes d) (hd : 0 < d.value) :
    0 < l.significand := by
  rw [← h.value_eq, value] at hd
  have hcast : (0 : ℚ) < l.significand := (mul_pos_iff_of_pos_right (by positivity)).mp hd
  exact_mod_cast hcast

/-- The digits of a positive number, the first of which is not zero. -/
structure IsDigitsOf (ds : List Char) (n : ℕ) : Prop where
  ne_nil : ds ≠ []
  digits : ∀ c ∈ ds, c.isDigit = true
  head_ne : ds.head? ≠ some '0'
  value : digitsValue ds = n

theorem toDigits_isDigitsOf {n : ℕ} (hn : 0 < n) : IsDigitsOf (Nat.toDigits 10 n) n :=
  ⟨Nat.toDigits_ne_nil, fun _ => isDigit_of_mem_toDigits, head_toDigits_ne_zero hn,
    digitsValue_toDigits n⟩

theorem isDigit_of_mem_zero {c : Char} (h : c ∈ ['0']) : c.isDigit = true := by
  rw [List.mem_singleton.mp h]
  rfl

theorem head?_take_digits {ds : List Char} {k : ℕ} (hne : ds ≠ []) :
    (ds.take (k + 1)).head? = ds.head? := by
  cases ds with
  | nil => exact absurd rfl hne
  | cons d ds => rfl

theorem denotes_zero (negative : Bool) {d : Decimal} (hd : d.digits = 0) :
    Denotes ⟨negative, ['0'], ['0'], none⟩ d := by
  refine ⟨⟨by simp, fun _ => isDigit_of_mem_zero, fun _ => rfl, fun _ => isDigit_of_mem_zero,
    by simp⟩, Or.inl (by simp), ?_, Nat.zero_le _, min_le_right _ _⟩
  rw [value, Decimal.value, hd]
  rw [show significand ⟨negative, ['0'], ['0'], none⟩ = 0 from rfl]
  simp

section Layouts

variable {l : Literal} {ds : List Char} {d : Decimal}

/-- A literal with the digits of the decimal and its power of ten. -/
theorem denotes_of_eq (hwell : l.WellFormed) (hdecimal : l.IsDecimal)
    (hsignificand : l.significand = d.digits) (hpower : l.power = d.exponent) : Denotes l d where
  wellFormed := hwell
  isDecimal := hdecimal
  value_eq := by rw [value, Decimal.value, hsignificand, hpower]
  significand_le := hsignificand.le.trans (le_max_left _ _)
  le_power := (min_le_left _ _).trans hpower.ge

/-- A whole number, with the zeros that its exponent stands for and one behind the point. -/
theorem denotes_whole (negative : Bool) (h : IsDigitsOf ds d.digits) (hexp : 0 ≤ d.exponent)
    (hlead : (ds.length : ℤ) + d.exponent ≤ 16) :
    Denotes ⟨negative, ds ++ List.replicate d.exponent.toNat '0', ['0'], none⟩ d := by
  obtain ⟨k, hk⟩ := Int.eq_ofNat_of_zero_le hexp
  rw [hk, Int.toNat_natCast]
  have hsignificand : significand ⟨negative, ds ++ List.replicate k '0', ['0'], none⟩ =
      10 ^ (k + 1) * d.digits := by
    rw [significand, List.append_assoc, digitsValue_append, h.value, digitsValue_append,
      digitsValue_zeros]
    simp [digitsValue, pow_succ]
  refine ⟨⟨by simp [h.ne_nil], ?_, ?_, fun _ => isDigit_of_mem_zero, by simp⟩,
    Or.inl (by simp), ?_, ?_, min_le_right _ _⟩
  · intro c hc
    rcases List.mem_append.mp hc with hc | hc
    · exact h.digits c hc
    · exact isDigit_of_mem_zeros hc
  · change (ds ++ _).head? = _ → _
    rw [List.head?_append_of_ne_nil _ h.ne_nil]
    exact fun hzero => absurd hzero h.head_ne
  · rw [value, Decimal.value, hk, hsignificand]
    change ((10 ^ (k + 1) * d.digits : ℕ) : ℚ) * 10 ^ ((0 : ℤ) - (1 : ℕ)) = _
    push_cast
    rw [zpow_natCast, zpow_neg_one, pow_succ]
    field_simp
  · apply le_max_of_le_right
    have hdigits := digitsValue_lt h.digits
    rw [h.value] at hdigits
    calc
      _ = 10 ^ (k + 1) * d.digits := hsignificand
      _ ≤ 10 ^ (k + 1) * 10 ^ ds.length := Nat.mul_le_mul_left _ hdigits.le
      _ = 10 ^ (k + 1 + ds.length) := (pow_add _ _ _).symm
      _ ≤ 10 ^ 17 := Nat.pow_le_pow_right (by decide) (by omega)

/-- A number with the point between its digits. -/
theorem denotes_point (negative : Bool) (h : IsDigitsOf ds d.digits) {k : ℕ}
    (hk : (k : ℤ) = ds.length - 1 + d.exponent) (hexp : d.exponent < 0) :
    Denotes ⟨negative, ds.take (k + 1), ds.drop (k + 1), none⟩ d := by
  have hrest : (ds.drop (k + 1)).length = (-d.exponent).toNat := by
    rw [List.length_drop]
    omega
  refine denotes_of_eq ⟨by simp [h.ne_nil], fun c hc => h.digits c (List.mem_of_mem_take hc), ?_,
    fun c hc => h.digits c (List.mem_of_mem_drop hc), by simp⟩ (Or.inl ?_) ?_ ?_
  · change (ds.take (k + 1)).head? = _ → _
    rw [head?_take_digits h.ne_nil]
    exact fun hzero => absurd hzero h.head_ne
  · apply List.ne_nil_of_length_pos
    change 0 < (ds.drop (k + 1)).length
    rw [hrest]
    omega
  · rw [significand, List.take_append_drop, h.value]
  · rw [power, hrest]
    change (0 : ℤ) - ((-d.exponent).toNat : ℕ) = d.exponent
    omega

/-- A number below one, with zeros between the point and its digits. -/
theorem denotes_fraction (negative : Bool) (h : IsDigitsOf ds d.digits) {k : ℕ}
    (hk : (k : ℤ) = -d.exponent - ds.length) :
    Denotes ⟨negative, ['0'], List.replicate k '0' ++ ds, none⟩ d := by
  refine denotes_of_eq ⟨by simp, fun _ => isDigit_of_mem_zero, fun _ => rfl, ?_, by simp⟩
    (Or.inl ?_) ?_ ?_
  · intro c hc
    rcases List.mem_append.mp hc with hc | hc
    · exact isDigit_of_mem_zeros hc
    · exact h.digits c hc
  · simp [h.ne_nil]
  · rw [significand, digitsValue_append, digitsValue_append, digitsValue_zeros, h.value]
    simp [digitsValue]
  · change (0 : ℤ) - (List.length _ : ℕ) = d.exponent
    rw [List.length_append, List.length_replicate]
    omega

/-- A number with one digit before the point and an exponent. -/
theorem denotes_exponent (negative : Bool) (h : IsDigitsOf ds d.digits) {lead : ℤ}
    (hlead : lead = ds.length - 1 + d.exponent) :
    Denotes ⟨negative, ds.take 1, ds.drop 1, some (lead < 0, Nat.toDigits 10 lead.natAbs)⟩ d := by
  refine denotes_of_eq ⟨by simp [h.ne_nil], fun c hc => h.digits c (List.mem_of_mem_take hc), ?_,
    fun c hc => h.digits c (List.mem_of_mem_drop hc), ?_⟩ (Or.inr (by simp)) ?_ ?_
  · change (ds.take 1).head? = _ → _
    rw [head?_take_digits h.ne_nil]
    exact fun hzero => absurd hzero h.head_ne
  · intro s es hes
    obtain ⟨-, rfl⟩ := Prod.mk.inj (Option.some.inj hes)
    exact ⟨Nat.toDigits_ne_nil, fun c => isDigit_of_mem_toDigits⟩
  · rw [significand, List.take_append_drop, h.value]
  · have hpos := List.length_pos_of_ne_nil h.ne_nil
    rw [power, scale, List.length_drop]
    dsimp only
    rw [digitsValue_toDigits]
    split
    next hneg =>
        rw [decide_eq_true_eq] at hneg
        omega
    next hneg =>
        rw [decide_eq_true_eq] at hneg
        omega

end Layouts

/-- The layout of a decimal is a literal with a point or an exponent that denotes it. -/
theorem ofDecimal_denotes (negative : Bool) (d : Decimal) :
    Denotes (ofDecimal negative d) d := by
  unfold ofDecimal
  dsimp only
  split_ifs with hzero hlead hexp hpoint
  · exact denotes_zero negative hzero
  · exact denotes_whole negative (toDigits_isDigitsOf (Nat.pos_of_ne_zero hzero)) hexp (by omega)
  · exact denotes_point negative (toDigits_isDigitsOf (Nat.pos_of_ne_zero hzero))
      (Int.toNat_of_nonneg hpoint) (by omega)
  · exact denotes_fraction negative (toDigits_isDigitsOf (Nat.pos_of_ne_zero hzero))
      ((Int.toNat_of_nonneg (by omega)).trans (by omega))
  · exact denotes_exponent negative (toDigits_isDigitsOf (Nat.pos_of_ne_zero hzero)) rfl

end Literal

/-! ## Reading a literal -/

/-- As long as there is room, all digits are taken. -/
theorem takeDigits_eq {n : ℕ} {ds : List Char}
    (h : 10 ^ ds.length * n + digitsValue ds < 2 ^ 64) :
    takeDigits n ds = (10 ^ ds.length * n + digitsValue ds, []) := by
  induction ds generalizing n with
  | nil => simp [takeDigits, digitsValue]
  | cons c ds ih =>
      have hsplit := digitsValue_append [c] ds
      rw [List.singleton_append] at hsplit
      have hdigit : digitsValue [c] = c.toNat - '0'.toNat := Nat.zero_add _
      have htotal : 10 ^ (c :: ds).length * n + digitsValue (c :: ds) =
          10 ^ ds.length * (10 * n + (c.toNat - '0'.toNat)) + digitsValue ds := by
        rw [hsplit, hdigit, List.length_cons, pow_succ]
        ring
      rw [htotal] at h ⊢
      have hnext : 10 * n + (c.toNat - '0'.toNat) < Number.twoPow 64 := by
        refine lt_of_le_of_lt ?_ h
        exact (Nat.le_mul_of_pos_left _ (by positivity)).trans (Nat.le_add_right _ _)
      rw [takeDigits]
      rw [if_pos hnext, ih h]

theorem takeDigits_fst_lt {n : ℕ} (hn : n < 2 ^ 64) (ds : List Char) :
    (takeDigits n ds).1 < 2 ^ 64 := by
  induction ds generalizing n with
  | nil => exact hn
  | cons c ds ih =>
      rw [takeDigits]
      split_ifs with hnext
      · exact ih hnext
      · exact hn

namespace Literal

theorem parts_fst_lt (l : Literal) : l.parts.1 < 2 ^ 64 :=
  takeDigits_fst_lt (takeDigits_fst_lt (by decide) _) _

/-- As long as there is room, the double is worked out from all digits. -/
theorem parts_eq {l : Literal} (h : l.significand < 2 ^ 64) :
    l.parts = (l.significand, l.power) := by
  have hsplit : l.significand = 10 ^ l.fraction.length * digitsValue l.whole +
      digitsValue l.fraction := digitsValue_append _ _
  rw [hsplit] at h ⊢
  have hwhole : takeDigits 0 l.whole = (digitsValue l.whole, []) := by
    have hle : digitsValue l.whole ≤ 10 ^ l.fraction.length * digitsValue l.whole :=
      Nat.le_mul_of_pos_left _ (by positivity)
    rw [takeDigits_eq (by omega), Nat.mul_zero, Nat.zero_add]
  rw [parts, hwhole]
  dsimp only
  rw [takeDigits_eq h]
  simp [power]
  omega

theorem integer?_of_isDecimal {l : Literal} (h : l.IsDecimal) : l.integer? = none :=
  if_pos h

/-- A literal with a point or an exponent denotes the double that is worked out for it. -/
theorem number?_of_isDecimal {l : Literal} (h : l.IsDecimal) (hlt : l.significand < 2 ^ 64) :
    l.number? = (Number.scaledBits? l.significand l.power).map fun b =>
      .decimal (Number.doubleOfBits (Number.double.sign l.negative + b)) := by
  rw [number?, integer?_of_isDecimal h]
  dsimp only
  rw [double?, parts_eq hlt, Option.map_map]
  rfl

theorem ofDecimal_negative (negative : Bool) (d : Decimal) :
    (ofDecimal negative d).negative = negative := by
  unfold ofDecimal
  dsimp only
  split_ifs <;> rfl

theorem number?_ofDecimal_zero (negative : Bool) :
    (ofDecimal negative ⟨0, 0⟩).number? =
      some (.decimal (Number.doubleOfBits (Number.double.sign negative))) := rfl

/-! ## Literals of doubles -/

/-- For a literal that does not denote too much a double is worked out. -/
theorem Denotes.exists_number?_eq {l : Literal} {d : Decimal} (h : l.Denotes d)
    (hdigits : d.digits < 2 ^ 64) (hvalue : d.value ≤ Number.safeBound) :
    ∃ y, l.number? = some (.decimal y) := by
  have hlt : l.significand < 2 ^ 64 :=
    h.significand_le.trans_lt (max_lt hdigits (by decide))
  rw [← h.value_eq] at hvalue
  obtain ⟨b, hb⟩ := Number.exists_scaledBits?_eq hlt hvalue
  exact ⟨_, by rw [number?_of_isDecimal h.isDecimal hlt, hb]; rfl⟩

/-- For the literal of the largest double one is worked out as well. -/
theorem exists_number?_largest (negative : Bool) :
    ∃ y, (ofDecimal negative (Number.shortest Number.double .toEven (2 ^ 53 - 1) 971)).number? =
      some (.decimal y) := by
  have hsome : (ofDecimal negative
      (Number.shortest Number.double .toEven (2 ^ 53 - 1) 971)).double?.isSome = true := by
    cases negative <;> decide +kernel
  obtain ⟨y, hy⟩ := Option.isSome_iff_exists.mp hsome
  exact ⟨y, by rw [number?, integer?_of_isDecimal (ofDecimal_denotes negative _).isDecimal, hy]; rfl⟩

/-- A finite double has a literal, from which a double is read. -/
theorem ofDouble?_spec {x : Float} {negative : Bool} {m : ℕ} {q : ℤ}
    (hx : Number.ofDouble x = .finite negative m q) :
    ∃ l y, ofDouble? x = some l ∧ l.WellFormed ∧ l.number? = some (.decimal y) := by
  have hlt : x.toBits.toNat < 2 * Number.twoPow (52 + 11) := x.toBits.toNat_lt
  obtain ⟨hc, hfinite, -⟩ := Number.Format.eq_of_datum_eq_finite (f := Number.double) hlt hx
  unfold ofDouble? ofDatum?
  rw [hx]
  dsimp only
  rcases Nat.eq_zero_or_pos m with rfl | hm
  · exact ⟨_, _, if_pos rfl, (ofDecimal_denotes negative ⟨0, 0⟩).wellFormed,
      number?_ofDecimal_zero negative⟩
  · have hdenotes := ofDecimal_denotes negative (Number.shortest Number.double .toEven m q)
    obtain ⟨y, hy⟩ : ∃ y, (ofDecimal negative (Number.shortest Number.double .toEven m q)).number? =
        some (.decimal y) := by
      obtain ⟨hround, -⟩ := Number.shortest_spec .toEven hc hm (n := 17) (by decide) (by decide)
      rcases lt_or_ge (Number.double.place m q + 1) Number.double.infinity with hsmall | hlarge
      · have hdigits := Number.shortest_digits_lt .toEven hc hm (n := 17) (by decide) (by decide)
        exact hdenotes.exists_number?_eq (hdigits.trans (by decide)) (Number.le_safeBound hround hsmall)
      · have hplace : Number.double.place m q = Number.double.place (2 ^ 53 - 1) 971 := by
          have htop : Number.double.place (2 ^ 53 - 1) 971 + 1 = Number.double.infinity := by decide
          omega
        obtain ⟨rfl, rfl⟩ := Number.Format.eq_of_place_eq hc
          ⟨by decide, by decide, fun _ => by decide⟩ hfinite hplace
        exact exists_number?_largest negative
    exact ⟨_, y, if_neg hm.ne', hdenotes.wellFormed, hy⟩

/-- The digits of a literal and its power of ten are doubles themselves. -/
structure IsShort (l : Literal) : Prop where
  digits : l.significand < 2 ^ 53
  low : -22 ≤ l.power
  high : l.power ≤ 22

/-- For a short literal only the last step rounds. -/
theorem IsShort.scaledBits?_eq {l : Literal} {d : Decimal} {m : ℕ} {q : ℤ} (h : l.IsShort)
    (hdenotes : l.Denotes d) (hm : 0 < m) (hround : Number.double.RoundsTo d.value m q)
    (hfinite : Number.double.place m q < Number.double.infinity) :
    Number.scaledBits? l.significand l.power = some (Number.double.place m q) := by
  have hdigits := h.digits
  have hlow := h.low
  have hhigh := h.high
  have htop : Number.topPower = 308 := rfl
  have hpos : 0 < d.value := lt_of_lt_of_le (by positivity) (hround.le_value hm)
  have hvalue : Number.scaledValue l.significand l.power = d.value :=
    (Number.scaledValue_eq hdigits hlow hhigh).trans hdenotes.value_eq
  have hplace : Number.double.round (Number.scaledValue l.significand l.power) =
      Number.double.place m q := by
    rw [hvalue, Number.Format.round_of_roundsTo hpos hround, min_eq_right hfinite.le]
  rw [Number.scaledBits?_eq (hdenotes.significand_pos hpos) (by omega) (by omega) (by omega)
    (hplace ▸ hfinite), hplace]

/-- A short literal of a double denotes this double. -/
theorem number?_of_isShort {x : Float} {l : Literal} (hl : ofDouble? x = some l) (h : l.IsShort) :
    l.number? = some (.decimal x) := by
  unfold ofDouble? ofDatum? at hl
  split at hl
  next negative m q hx =>
      have hlt : x.toBits.toNat < 2 * Number.twoPow (52 + 11) := x.toBits.toNat_lt
      obtain ⟨hc, hfinite, hbits⟩ := Number.Format.eq_of_datum_eq_finite (f := Number.double) hlt hx
      have hsame := Number.doubleOfBits_toBits x
      rw [hbits] at hsame
      split_ifs at hl with hm <;> obtain rfl := Option.some.inj hl
      · obtain rfl : m = 0 := hm
        obtain rfl := hc.eq_leastExponent_of_zero
        rw [number?_ofDecimal_zero, ← hsame]
        simp [Number.Format.place]
      · have hpos := Nat.pos_of_ne_zero hm
        have hdenotes := ofDecimal_denotes negative (Number.shortest Number.double .toEven m q)
        obtain ⟨hround, -⟩ := Number.shortest_spec .toEven hc hpos (n := 17) (by decide) (by decide)
        rw [number?_of_isDecimal hdenotes.isDecimal (h.digits.trans (by decide)),
          h.scaledBits?_eq hdenotes hpos hround hfinite, ofDecimal_negative, Option.map_some, hsame]
  next => exact absurd hl (by simp)

end Literal
end Json
end DesignPages
