import DesignPages.Json.Decode
import DesignPages.Proofs.Json.Literal

/-!
# What readers ensure

Whatever a text holds, the doubles that are read from it are finite: a literal beyond the largest
double is refused.  A property of a record that holds at the start and that every field keeps holds of
every record that is read, in whatever form and order it is written.
-/

namespace DesignPages

namespace Json

theorem Literal.isFinite_of_double? {l : Literal} {x : Float} (h : l.double? = some x) :
    (Number.ofDouble x).isFinite = true := by
  obtain ⟨b, hb, rfl⟩ := Option.map_eq_some_iff.mp h
  exact Number.isFinite_doubleOfBits _ (Number.lt_of_scaledBits?_eq_some l.parts_fst_lt hb)

theorem Literal.natAbs_lt_of_integer? {l : Literal} {n : ℤ} (h : l.integer? = some n) :
    n.natAbs < 2 ^ 64 := by
  have h63 : Number.twoPow 63 = 2 ^ 63 := rfl
  have h64 : Number.twoPow 64 = 2 ^ 64 := rfl
  unfold integer? at h
  dsimp only at h
  split_ifs at h with _ _ hnegative hfits <;> rw [← Option.some_inj.mp h] <;> omega

/-- The double of an integer literal is finite. -/
theorem isFinite_integer {n : ℤ} (h : n.natAbs < 2 ^ 64) :
    (Number.ofDouble (Number.integer n).toDouble).isFinite = true := by
  refine Number.isFinite_doubleOfBits _ ?_
  refine (Number.Format.magnitude_mono (f := Number.double) (Number.twoPow_pos _) Nat.one_pos
    ?_).trans_lt (show Number.double.magnitude (2 ^ 64) 1 < Number.double.infinity by decide)
  have hone : Number.twoPow (0 : ℤ).toNat = 1 := rfl
  have hzero : Number.twoPow (-0 : ℤ).toNat = 1 := rfl
  rw [hone, hzero, mul_one, Nat.cast_one, div_one, div_one]
  exact_mod_cast h.le

theorem Literal.isFinite_toDouble {l : Literal} {n : Number} (h : l.number? = some n) :
    (Number.ofDouble n.toDouble).isFinite = true := by
  unfold number? at h
  cases hinteger : l.integer? with
  | some i =>
      rw [hinteger] at h
      rw [← Option.some_inj.mp h]
      exact isFinite_integer (natAbs_lt_of_integer? hinteger)
  | none =>
      rw [hinteger] at h
      obtain ⟨x, hx, rfl⟩ := Option.map_eq_some_iff.mp h
      exact isFinite_of_double? hx

/-! ## Readers -/

section Except

variable {ε α β : Type}

/-- What was read in two steps was read in each of them. -/
theorem exists_of_bind_eq_ok {x : Except ε α} {f : α → Except ε β} {b : β}
    (h : (x >>= f) = .ok b) : ∃ a, x = .ok a ∧ f a = .ok b := by
  cases x with
  | error e => exact absurd h (by simp [bind, Except.bind])
  | ok a => exact ⟨a, rfl, h⟩

theorem bind_eq_ok_iff {x : Except ε α} {f : α → Except ε β} {b : β} :
    (x >>= f) = .ok b ↔ ∃ a, x = .ok a ∧ f a = .ok b := by
  constructor
  · exact exists_of_bind_eq_ok
  · rintro ⟨a, rfl, hb⟩
    exact hb

theorem exists_of_map_eq_ok {x : Except ε α} {f : α → β} {b : β} (h : x.map f = .ok b) :
    ∃ a, x = .ok a ∧ f a = b := by
  cases x with
  | error e => exact absurd h (by simp [Except.map])
  | ok a => exact ⟨a, rfl, Except.ok.inj h⟩

end Except

/-- Everything that is read has the property. -/
def Decoder.Ensures {α : Type} (d : Decoder α) (P : α → Prop) : Prop :=
  ∀ s o a, d s o = .ok a → P a

/-- Reading the field keeps the property of a record. -/
def Field.Keeps {σ : Type} (f : Field σ) (P : σ → Prop) : Prop :=
  ∀ s o a b, f.read s o a = .ok b → P a → P b

variable {α σ : Type} {d : Decoder α} {P : α → Prop} {Q : σ → Prop}

namespace Decoder

theorem ensures_true (d : Decoder α) : d.Ensures fun _ => True :=
  fun _ _ _ _ => trivial

theorem double_ensures : double.Ensures fun x => (Number.ofDouble x).isFinite = true := by
  intro s o x h
  cases o with
  | num l =>
      cases hnumber : l.number? with
      | none => simp [double, hnumber] at h
      | some n =>
          simp only [double, hnumber, Except.ok.injEq] at h
          rw [← h]
          exact Literal.isFinite_toDouble hnumber
  | _ => simp [double] at h

theorem Ensures.nullable (h : d.Ensures P) : d.nullable.Ensures fun x => ∀ a ∈ x, P a := by
  intro s o x hx a ha
  obtain rfl := Option.mem_def.mp ha
  have hread : (d s o).map some = .ok (some a) := by
    cases o <;> first | exact hx | simp [Decoder.nullable] at hx
  obtain ⟨b, hb, hsome⟩ := exists_of_map_eq_ok hread
  rw [← Option.some_inj.mp hsome]
  exact h s o b hb

theorem Ensures.items (h : d.Ensures P) {s : Setting} :
    ∀ (os : List Outline) (as : List α), Decoder.items d s os = .ok as → ∀ a ∈ as, P a
  | [], as, has, a, ha => by
      obtain rfl : [] = as := by simpa [Decoder.items] using has
      exact absurd ha List.not_mem_nil
  | o :: os, as, has, a, ha => by
      obtain ⟨b, hb, has⟩ := exists_of_bind_eq_ok has
      obtain ⟨bs, hbs, has⟩ := exists_of_bind_eq_ok has
      obtain rfl : b :: bs = as := by simpa [pure, Except.pure] using has
      rcases List.mem_cons.mp ha with rfl | ha
      · exact h s o a hb
      · exact Ensures.items h os bs hbs a ha

theorem Ensures.list (h : d.Ensures P) : d.list.Ensures fun as => ∀ a ∈ as, P a := by
  intro s o as has
  cases o with
  | arr os stop =>
      obtain ⟨inside, -, has⟩ := exists_of_bind_eq_ok has
      obtain ⟨bs, hbs, has⟩ := exists_of_bind_eq_ok has
      obtain ⟨-, -, has⟩ := exists_of_bind_eq_ok has
      obtain rfl : bs = as := by simpa [pure, Except.pure] using has
      exact Ensures.items h os bs hbs
  | _ => simp [Decoder.list] at has

end Decoder

theorem Field.keeps_of {name : String} {absence : Absence} {put : α → σ → σ} (h : d.Ensures P)
    (hput : ∀ v a, P v → Q a → Q (put v a)) : (Field.of name absence d put).Keeps Q := by
  intro s o a b hread ha
  obtain ⟨v, hv, rfl⟩ := exists_of_map_eq_ok hread
  exact hput v a (h s o v hv) ha

namespace Record

variable {r : Record σ} {s : Setting}

theorem readMembers_keeps (h : ∀ f ∈ r.fields, f.Keeps Q) :
    ∀ (ms : List (Key × Outline)) (seen : List String) (a : σ) (p : List String × σ),
      r.readMembers s ms seen a = .ok p → Q a → Q p.2
  | [], seen, a, p, hread, ha => by
      obtain rfl : (seen, a) = p := by simpa [readMembers] using hread
      exact ha
  | (key, o) :: ms, seen, a, p, hread, ha => by
      obtain ⟨name, -, hread⟩ := exists_of_bind_eq_ok hread
      cases hf : r.field? name with
      | none =>
          rw [hf] at hread
          obtain ⟨-, -, hread⟩ := exists_of_bind_eq_ok hread
          exact readMembers_keeps h ms seen a p hread ha
      | some f =>
          rw [hf] at hread
          dsimp only at hread
          split_ifs at hread
          obtain ⟨b, hb, hread⟩ := exists_of_bind_eq_ok hread
          exact readMembers_keeps h ms _ b p hread
            (h f (List.mem_of_find?_eq_some hf) s o a b hb ha)

theorem readElements_keeps {stop : Stop} :
    ∀ (index : ℕ) (os : List Outline) (fs : List (Field σ)) (a b : σ), (∀ f ∈ fs, f.Keeps Q) →
      r.readElements s stop index os fs a = .ok b → Q a → Q b
  | index, [], f :: fs, a, b, _, hread, ha => by
      obtain ⟨-, -, hread⟩ := exists_of_bind_eq_ok hread
      obtain ⟨-, -, hread⟩ := exists_of_bind_eq_ok hread
      obtain rfl : a = b := by simpa [pure, Except.pure] using hread
      exact ha
  | index, [], [], a, b, _, hread, ha => by
      obtain ⟨-, -, hread⟩ := exists_of_bind_eq_ok hread
      obtain rfl : a = b := by simpa [pure, Except.pure] using hread
      exact ha
  | index, _ :: _, [], _, _, _, hread, _ => by simp [readElements] at hread
  | index, o :: os, f :: fs, a, b, h, hread, ha => by
      obtain ⟨c, hc, hread⟩ := exists_of_bind_eq_ok hread
      exact readElements_keeps (index + 1) os fs c b
        (fun g hg => h g (List.mem_cons_of_mem _ hg)) hread
        (h f List.mem_cons_self s o a c hc ha)

/-- A property of the blank record that every field keeps holds of every record that is read. -/
theorem decoder_ensures (hblank : Q r.blank) (h : ∀ f ∈ r.fields, f.Keeps Q) :
    r.decoder.Ensures Q := by
  intro s o a hread
  cases o with
  | obj ms stop =>
      obtain ⟨inside, -, hread⟩ := exists_of_bind_eq_ok hread
      obtain ⟨p, hp, hread⟩ := exists_of_bind_eq_ok hread
      obtain ⟨-, -, hread⟩ := exists_of_bind_eq_ok hread
      obtain ⟨-, -, hread⟩ := exists_of_bind_eq_ok hread
      obtain rfl : p.2 = a := by simpa [pure, Except.pure] using hread
      exact readMembers_keeps h ms [] r.blank p hp hblank
  | arr os stop =>
      obtain ⟨inside, -, hread⟩ := exists_of_bind_eq_ok hread
      exact readElements_keeps 0 os r.fields r.blank a h hread hblank
  | _ => simp [decoder] at hread

end Record
end Json
end DesignPages
