import DesignPages.Json.Decode
import DesignPages.Proofs.Json.Scan

/-!
# Reading printed values

This module describes what the readers make of the outline of a printed value.  A record whose
members stand in the order of its fields is read field by field; this is all that is needed to follow
a value through the text in which it was printed.
-/

namespace DesignPages
namespace Json

/-! ## Values of any shape -/

mutual

/-- A printed value that is read as a value of any shape is the same value. -/
theorem Outline.visit_ofJson : ∀ (v : Json) (room : ℕ), v.Legible room →
    (Outline.ofJson v).visit room = .ok v
  | .null, _, _ => by rw [Outline.ofJson, Outline.visit]
  | .bool _, _, _ => by rw [Outline.ofJson, Outline.visit]
  | .num l, _, h => by
      rw [Legible] at h
      rw [Outline.ofJson, Outline.visit, if_pos h.2]
  | .str _, _, _ => by rw [Outline.ofJson, Outline.visit]
  | .arr vs, room, h => by
      rw [Legible] at h
      have hroom : room ≠ 0 := by omega
      have hitems := Outline.visitItems_ofItems vs (room - 1) h.2
      simp only [Outline.ofJson, Outline.visit, if_neg hroom, hitems]
      rfl
  | .obj ms, room, h => by
      rw [Legible] at h
      have hroom : room ≠ 0 := by omega
      have hmembers := Outline.visitMembers_ofMembers ms (room - 1) h.2
      simp only [Outline.ofJson, Outline.visit, if_neg hroom, hmembers]
      rfl

theorem Outline.visitItems_ofItems : ∀ (vs : List Json) (room : ℕ), LegibleItems room vs →
    Outline.visitItems room (Outline.ofItems vs) = .ok vs
  | [], _, _ => by rw [Outline.ofItems, Outline.visitItems]
  | v :: vs, room, h => by
      rw [LegibleItems] at h
      have hv := Outline.visit_ofJson v room h.1
      have hvs := Outline.visitItems_ofItems vs room h.2
      simp only [Outline.ofItems, Outline.visitItems, hv, hvs]
      rfl

theorem Outline.visitMembers_ofMembers : ∀ (ms : List (String × Json)) (room : ℕ),
    LegibleMembers room ms → Outline.visitMembers room (Outline.ofMembers ms) = .ok ms
  | [], _, _ => by rw [Outline.ofMembers, Outline.visitMembers]
  | (k, v) :: ms, room, h => by
      rw [LegibleMembers] at h
      have hv := Outline.visit_ofJson v room h.1
      have hms := Outline.visitMembers_ofMembers ms room h.2
      simp only [Outline.ofMembers, Outline.visitMembers, hv, hms]
      rfl

end

/-- Reading the text of a printed value is reading its outline. -/
theorem readStreamed_chars {α : Type} (d : Decoder α) {layout : Layout} (hL : layout.IsBlank)
    {room : ℕ} {v : Json} (h : v.Legible room) {blank : List Char}
    (hblank : ∀ c ∈ blank, Scan.isSpace c = true) :
    readStreamed d (String.ofList (chars layout 0 v ++ blank)) =
      d ⟨.streamed, Setting.depthLimit⟩ (.ofJson v) := by
  simp only [readStreamed, String.toList_ofList, Outline.ofChars_chars hL h hblank,
    checkRest_blank hblank]
  cases d ⟨.streamed, Setting.depthLimit⟩ (.ofJson v) <;> rfl

/-! ## Values read from their own text -/

section Reread

variable {α : Type}

/-- The text of a value reads back as this value. -/
def ReadsBack (d : Decoder α) (write : α → Json) (x : α) : Prop :=
  readStreamed d (write x).compact = .ok x

instance [DecidableEq α] (d : Decoder α) (write : α → Json) (x : α) :
    Decidable (ReadsBack d write x) :=
  inferInstanceAs (Decidable (_ = _))

/-- What is read from the text of a value, or the value itself if its text is refused. -/
def reread (d : Decoder α) (write : α → Json) (x : α) : α :=
  (readStreamed d (write x).compact).toOption.getD x

variable {d : Decoder α} {write : α → Json} {x y : α} {room : ℕ}

theorem readStreamed_compact (h : (write x).Legible room)
    (hread : d ⟨.streamed, Setting.depthLimit⟩ (.ofJson (write x)) = .ok y) :
    readStreamed d (write x).compact = .ok y := by
  have hchars := readStreamed_chars d Layout.compact_isBlank h fun _ hd => absurd hd List.not_mem_nil
  rw [List.append_nil, hread] at hchars
  exact hchars

theorem reread_eq (h : (write x).Legible room)
    (hread : d ⟨.streamed, Setting.depthLimit⟩ (.ofJson (write x)) = .ok y) :
    reread d write x = y := by
  rw [reread, readStreamed_compact h hread]
  rfl

/-- A value whose text is read at all is the one that is read exactly if its text reads back. -/
theorem reread_eq_self_iff (h : (write x).Legible room)
    (hread : d ⟨.streamed, Setting.depthLimit⟩ (.ofJson (write x)) = .ok y) :
    reread d write x = x ↔ ReadsBack d write x := by
  rw [reread_eq h hread, ReadsBack, readStreamed_compact h hread, Except.ok.injEq]

end Reread

/-! ## Numbers, options and lists -/

namespace Decoder

variable {α β : Type}

theorem nullable_ofOption (d : Decoder β) (s : Setting) (write : α → Json)
    (hwrite : ∀ a, write a ≠ .null) (x : Option α) :
    nullable d s (.ofJson (.ofOption write x)) =
      x.elim (.ok none) fun a => (d s (.ofJson (write a))).map some := by
  cases x with
  | none => rfl
  | some a =>
      have ha := hwrite a
      simp only [Json.ofOption, Option.elim]
      cases h : write a with
      | null => exact absurd h ha
      | bool b => rfl
      | num l => rfl
      | str t => rfl
      | arr vs => rfl
      | obj ms => rfl

/-- An option whose value, if there is one, is read as `f` of it is read as `f` of the option. -/
theorem nullable_ofOption_map (d : Decoder β) (s : Setting) (write : α → Json) (f : α → β)
    {x : Option α} (hnull : ∀ a ∈ x, write a ≠ .null)
    (h : ∀ a ∈ x, d s (.ofJson (write a)) = .ok (f a)) :
    nullable d s (.ofJson (.ofOption write x)) = .ok (x.map f) := by
  cases x with
  | none => rfl
  | some a =>
      have ha := hnull a rfl
      have hread := h a rfl
      simp only [Json.ofOption, Option.elim]
      cases hw : write a with
      | null => exact absurd hw ha
      | _ =>
          rw [hw] at hread
          simp only [Outline.ofJson] at hread ⊢
          simp only [nullable, hread]
          rfl

theorem list_ofList (d : Decoder β) (write : α → Json) {room : ℕ} (xs : List α)
    (manner : Manner) :
    list d ⟨manner, room + 1⟩ (.ofJson (.ofList write xs)) =
      items d ⟨manner, room⟩ (xs.map fun x => .ofJson (write x)) := by
  have hitems (ys : List α) :
      Outline.ofItems (ys.map write) = ys.map fun x => .ofJson (write x) := by
    induction ys with
    | nil => rfl
    | cons y ys ih => simp [Outline.ofItems, ih]
  simp only [Json.ofList, Outline.ofJson, list, hitems]
  change (items d ⟨manner, room⟩ _ >>= fun as => .ok as) = _
  cases items d ⟨manner, room⟩ _ <;> rfl

end Decoder

/-! ## Records -/

namespace Record

variable {σ : Type} (r : Record σ) (s : Setting)

/-- Reads values as fields, one after the other. -/
def readFields : List (Field σ) → List Json → σ → Except Fault σ
  | f :: fs, v :: vs, a => do
    let b ← f.read s (.ofJson v) a
    readFields fs vs b
  | _, _, a => .ok a

theorem field?_of_mem (hnodup : (r.fields.map Field.name).Nodup) {f : Field σ}
    (hf : f ∈ r.fields) : r.field? f.name = some f := by
  rw [field?, List.find?_eq_some_iff_append]
  obtain ⟨done, rest, hfields⟩ := List.append_of_mem hf
  refine ⟨by simp, done, rest, hfields, fun g hg => ?_⟩
  have hne : g.name ≠ f.name := by
    intro hname
    rw [hfields, List.map_append, List.map_cons, List.nodup_append] at hnodup
    exact hnodup.2.2 g.name (List.mem_map_of_mem hg) f.name List.mem_cons_self hname
  simpa using hne

/-- The fields `fs` are still to be read, and `seen` holds none of their names. -/
theorem readMembers_inOrder (hnodup : (r.fields.map Field.name).Nodup) :
    ∀ (fs : List (Field σ)) (vs : List Json) (seen : List String) (a : σ),
      vs.length = fs.length → (fs.map Field.name).Nodup → (∀ f ∈ fs, f ∈ r.fields) →
      (∀ f ∈ fs, f.name ∉ seen) →
      r.readMembers s (Outline.ofMembers ((fs.map Field.name).zip vs)) seen a =
        (readFields s fs vs a).map fun b => ((fs.map Field.name).reverse ++ seen, b)
  | [], [], _, _, _, _, _, _ => rfl
  | f :: fs, v :: vs, seen, a, hlength, hfs, hmem, hseen => by
      have hfield := r.field?_of_mem hnodup (hmem f List.mem_cons_self)
      have hnew : ¬seen.contains f.name = true := by
        simpa using hseen f List.mem_cons_self
      rw [List.map_cons, List.nodup_cons] at hfs
      have hrest (b : σ) :=
        readMembers_inOrder hnodup fs vs (f.name :: seen) b (by simpa using hlength) hfs.2
          (fun g hg => hmem g (List.mem_cons_of_mem _ hg)) fun g hg hin => by
            rcases List.mem_cons.mp hin with hname | hin
            · exact hfs.1 (List.mem_map.mpr ⟨g, hg, hname⟩)
            · exact hseen g (List.mem_cons_of_mem _ hg) hin
      simp only [List.map_cons, List.zip_cons_cons, Outline.ofMembers, readMembers, Key.read,
        orBroken, bind, Except.bind, hfield, if_neg hnew, readFields]
      cases f.read s (.ofJson v) a with
      | error e => rfl
      | ok b =>
          simp only [hrest b, List.reverse_cons, List.append_assoc, List.singleton_append]

theorem checkPresent_of_seen (seen : List String) :
    ∀ fs : List (Field σ), (∀ f ∈ fs, f.name ∈ seen) → checkPresent seen fs = .ok ()
  | [], _ => rfl
  | f :: fs, h => by
      have hf : ¬(f.absence = .required ∧ (!seen.contains f.name) = true) := by
        simp [h f List.mem_cons_self]
      rw [checkPresent, if_neg hf]
      exact checkPresent_of_seen seen fs fun g hg => h g (List.mem_cons_of_mem _ hg)

/-- Members that stand in the order of the fields are read field by field. -/
theorem ofMembers_inOrder (hnodup : (r.fields.map Field.name).Nodup) (vs : List Json)
    (hlength : vs.length = r.fields.length) {ms : List (String × Json)}
    (hms : ms = (r.fields.map Field.name).zip vs) :
    r.ofMembers s (Outline.ofMembers ms) .closed = readFields s r.fields vs r.blank := by
  have hread := r.readMembers_inOrder s hnodup r.fields vs [] r.blank hlength hnodup
    (fun f hf => hf) fun f _ => List.not_mem_nil
  have hpresent := checkPresent_of_seen ((r.fields.map Field.name).reverse ++ []) r.fields
    fun f hf => by simpa using ⟨f, hf, rfl⟩
  rw [ofMembers, hms, hread]
  cases readFields s r.fields vs r.blank with
  | error e => rfl
  | ok a =>
      simp only [Except.map, bind, Except.bind, Stop.check, orBroken, hpresent]
      rfl

/-- A printed record is read field by field. -/
theorem decoder_inOrder (hnodup : (r.fields.map Field.name).Nodup) (vs : List Json)
    (hlength : vs.length = r.fields.length) {ms : List (String × Json)}
    (hms : ms = (r.fields.map Field.name).zip vs) (manner : Manner) (room : ℕ) :
    r.decoder ⟨manner, room + 1⟩ (.ofJson (.obj ms)) =
      readFields ⟨manner, room⟩ r.fields vs r.blank := by
  rw [← r.ofMembers_inOrder ⟨manner, room⟩ hnodup vs hlength hms, Outline.ofJson]
  rfl

end Record
end Json
end DesignPages
