import DesignPages.Proofs.Json.Whole
import Mathlib.Data.List.Forall2

/-!
# Room for brackets

How many brackets a reader allows inside each other does not matter for a value that stays below that
number.  So a value is read at the top of a text as it is read inside the brackets of another value.

Readers of nested records come in stages, each of which reads the values inside by the stage below.
The statement is therefore made for values of less than a given depth, and for two readers.
-/

namespace DesignPages
namespace Json

/-! ## Settings -/

/-- Two settings of one manner that allow as many brackets inside each other. -/
structure Setting.BothAllow (n : ℕ) (s s' : Setting) : Prop where
  manner : s.manner = s'.manner
  left : n ≤ s.room
  right : n ≤ s'.room

namespace Setting.BothAllow

variable {n : ℕ} {s s' : Setting}

theorem mono {m : ℕ} (h : BothAllow n s s') (hm : m ≤ n) : BothAllow m s s' :=
  ⟨h.manner, hm.trans h.left, hm.trans h.right⟩

theorem inside (h : BothAllow (n + 1) s s') :
    ∃ t t', s.inside = .ok t ∧ s'.inside = .ok t' ∧ BothAllow n t t' := by
  have hleft := h.left
  have hright := h.right
  refine ⟨_, _, if_neg (by omega), if_neg (by omega), h.manner, ?_, ?_⟩
  · exact Nat.le_sub_one_of_lt hleft
  · exact Nat.le_sub_one_of_lt hright

end Setting.BothAllow

variable {α σ : Type} {k : ℕ} {s s' : Setting}

/-! ## Readers of values -/

/-- The readers give the same for values of depth less than `k`, in settings that allow this depth. -/
def Decoder.AgreeBelow (k : ℕ) (d e : Decoder α) : Prop :=
  ∀ (s s' : Setting) (o : Outline), o.depth < k → s.BothAllow o.depth s' → d s o = e s' o

namespace Decoder

variable {d e : Decoder α}

theorem AgreeBelow.mono {j : ℕ} (h : AgreeBelow k d e) (hj : j ≤ k) : AgreeBelow j d e :=
  fun s s' o hk => h s s' o (Nat.lt_of_lt_of_le hk hj)

/-- A reader that does not look at the setting agrees with itself. -/
theorem agreeBelow_of_forall (h : ∀ s s' o, d s o = d s' o) : AgreeBelow k d d :=
  fun s s' o _ _ => h s s' o

theorem string_agreeBelow : AgreeBelow k string string := by
  refine agreeBelow_of_forall fun s s' o => ?_
  cases o with
  | str text => cases text <;> rfl
  | _ => rfl

theorem boolean_agreeBelow : AgreeBelow k boolean boolean :=
  agreeBelow_of_forall fun s s' o => by cases o <;> rfl

theorem double_agreeBelow : AgreeBelow k double double :=
  agreeBelow_of_forall fun s s' o => by cases o <;> rfl

theorem single_agreeBelow : AgreeBelow k single single :=
  agreeBelow_of_forall fun s s' o => by cases o <;> rfl

theorem AgreeBelow.nullable (h : AgreeBelow k d e) : AgreeBelow k d.nullable e.nullable := by
  intro s s' o hk hs
  have ho := h s s' o hk hs
  cases o with
  | null => rfl
  | brokenNull why => rfl
  | _ => exact congrArg (Except.map some) ho

theorem AgreeBelow.items (h : AgreeBelow k d e) :
    ∀ os : List Outline, Outline.depthItems os < k → s.BothAllow (Outline.depthItems os) s' →
      Decoder.items d s os = Decoder.items e s' os
  | [], _, _ => rfl
  | o :: os, hk, hs => by
      rw [Outline.depthItems] at hk hs
      have ho := h s s' o (by omega) (hs.mono (Nat.le_max_left _ _))
      have hos := AgreeBelow.items h os (by omega) (hs.mono (Nat.le_max_right _ _))
      rw [Decoder.items, Decoder.items, ho, hos]

theorem AgreeBelow.list (h : AgreeBelow k d e) : AgreeBelow (k + 1) d.list e.list := by
  intro s s' o hk hs
  cases o with
  | arr os stop =>
      rw [Outline.depth] at hk hs
      obtain ⟨t, t', hleft, hright, ht⟩ := hs.inside
      have hitems := h.items os (by omega) ht
      simp only [Decoder.list, hleft, hright, bind, Except.bind, hitems]
  | _ => rfl

end Decoder

/-! ## Readers of records -/

/-- The fields have one name and may be left out in the same places, and their readers give the same
for values of depth less than `k`. -/
structure Field.AgreeBelow (k : ℕ) (f g : Field σ) : Prop where
  name : f.name = g.name
  absence : f.absence = g.absence
  read : ∀ s s' o a, o.depth < k → s.BothAllow o.depth s' → f.read s o a = g.read s' o a

theorem Field.AgreeBelow.of {d e : Decoder α} (h : d.AgreeBelow k e) {name : String}
    {absence : Absence} {put : α → σ → σ} :
    (Field.of name absence d put).AgreeBelow k (Field.of name absence e put) where
  name := rfl
  absence := rfl
  read s s' o a hk hs := congrArg (Except.map fun v => put v a) (h s s' o hk hs)

/-- The records differ in nothing but the readers of their fields, and these agree. -/
structure Record.AgreeBelow (k : ℕ) (r r' : Record σ) : Prop where
  name : r.name = r'.name
  fields : List.Forall₂ (Field.AgreeBelow k) r.fields r'.fields
  blank : r.blank = r'.blank

namespace Record

variable {r r' : Record σ}

theorem rel_find?_of_forall₂ {fs gs : List (Field σ)}
    (h : List.Forall₂ (Field.AgreeBelow k) fs gs) (name : String) :
    Option.Rel (Field.AgreeBelow k) (fs.find? fun f => f.name == name)
      (gs.find? fun g => g.name == name) := by
  induction h with
  | nil => exact .none
  | cons hf _ ih =>
      rw [List.find?_cons, List.find?_cons, hf.name]
      split
      · exact .some hf
      · exact ih

theorem AgreeBelow.field? (h : r.AgreeBelow k r') (name : String) :
    Option.Rel (Field.AgreeBelow k) (r.field? name) (r'.field? name) :=
  rel_find?_of_forall₂ h.fields name

theorem AgreeBelow.readMembers (h : r.AgreeBelow k r') :
    ∀ (ms : List (Key × Outline)) (seen : List String) (a : σ), Outline.depthMembers ms < k →
      s.BothAllow (Outline.depthMembers ms) s' →
      r.readMembers s ms seen a = r'.readMembers s' ms seen a
  | [], _, _, _, _ => rfl
  | (key, o) :: ms, seen, a, hk, hs => by
      rw [Outline.depthMembers] at hk hs
      have hrest (seen : List String) (b : σ) :=
        h.readMembers ms seen b (by omega) (hs.mono (Nat.le_max_right _ _))
      rw [Record.readMembers, Record.readMembers]
      congr 1
      funext name
      cases hf : r.field? name <;> cases hg : r'.field? name
      all_goals
        have hrel := h.field? name
        rw [hf, hg] at hrel
        cases hrel
      · simp only [hrest]
      · next f g hfg =>
          have hread := hfg.read s s' o a (by omega) (hs.mono (Nat.le_max_left _ _))
          simp only [hread, hrest]

theorem checkPresent_congr (seen : List String) {fs gs : List (Field σ)}
    (h : List.Forall₂ (Field.AgreeBelow k) fs gs) : checkPresent seen fs = checkPresent seen gs := by
  induction h with
  | nil => rfl
  | cons hf _ ih => rw [checkPresent, checkPresent, hf.name, hf.absence, ih]

theorem AgreeBelow.checkDefaults (h : r.AgreeBelow k r') (index : ℕ) {fs gs : List (Field σ)}
    (hfs : List.Forall₂ (Field.AgreeBelow k) fs gs) :
    r.checkDefaults index fs = r'.checkDefaults index gs := by
  induction hfs generalizing index with
  | nil => rfl
  | cons hf _ ih =>
      rw [Record.checkDefaults, Record.checkDefaults, hf.absence, h.name, h.fields.length_eq, ih]

theorem AgreeBelow.tooLong (h : r.AgreeBelow k r') (manner : Manner) (given : ℕ) :
    r.tooLong manner given = r'.tooLong manner given := by
  cases manner
  · rfl
  · rfl
  · rw [Record.tooLong, Record.tooLong, h.fields.length_eq]

theorem AgreeBelow.readElements (h : r.AgreeBelow k r') (stop : Stop) (os : List Outline) :
    ∀ (index : ℕ) {fs gs : List (Field σ)} (a : σ), List.Forall₂ (Field.AgreeBelow k) fs gs →
      Outline.depthItems os < k → s.BothAllow (Outline.depthItems os) s' →
      r.readElements s stop index os fs a = r'.readElements s' stop index os gs a := by
  induction os with
  | nil =>
      intro index fs gs a hfs hk hs
      cases hfs with
      | nil => rfl
      | cons hf hfs =>
          rw [Record.readElements, Record.readElements, h.checkDefaults index (.cons hf hfs)]
  | cons o os ih =>
      intro index fs gs a hfs hk hs
      cases hfs with
      | nil => rw [Record.readElements, Record.readElements, h.tooLong, hs.manner]
      | cons hf hfs =>
          rw [Outline.depthItems] at hk hs
          have hread := hf.read s s' o a (by omega) (hs.mono (Nat.le_max_left _ _))
          have hrest (b : σ) :=
            ih (index + 1) b hfs (by omega) (hs.mono (Nat.le_max_right _ _))
          simp only [Record.readElements, hread, hrest]

theorem AgreeBelow.decoder (h : r.AgreeBelow k r') :
    Decoder.AgreeBelow (k + 1) r.decoder r'.decoder := by
  intro s s' o hk hs
  cases o with
  | obj ms stop =>
      rw [Outline.depth] at hk hs
      obtain ⟨t, t', hleft, hright, ht⟩ := hs.inside
      have hread := h.readMembers ms [] r'.blank (by omega) ht
      have hpresent (seen : List String) := checkPresent_congr seen h.fields
      simp only [Record.decoder, Record.ofMembers, hleft, hright, h.blank, hread, hpresent, bind,
        Except.bind]
  | arr os stop =>
      rw [Outline.depth] at hk hs
      obtain ⟨t, t', hleft, hright, ht⟩ := hs.inside
      have hread := h.readElements stop os 0 r'.blank h.fields (by omega) ht
      simp only [Record.decoder, hleft, hright, h.blank, hread, bind, Except.bind]
  | _ => exact congrArg (fun name => Except.error (Outline.refuse (.record name) _)) h.name

end Record
end Json
end DesignPages
