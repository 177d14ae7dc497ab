import DesignPages.Proofs.Json.Decode
import DesignPages.Proofs.Json.Whole

/-!
# Readers for printed values

A printed value is read as something if it can be scanned, and if the reader makes this thing of it
wherever there is room for its brackets.  The law speaks of one value at a time, so that it can be
used where only some values are read as they were.  It is carried here through options, lists, records
and cases, so that it has to be proved by hand for numbers and texts only.
-/

namespace DesignPages
namespace Json

/-! ## Values that can be scanned -/

mutual

/-- A value that can be read again with some room can be read again as soon as there is room for its
own brackets. -/
theorem Legible.of_depth_le {room : ℕ} : ∀ {v : Json} {room' : ℕ}, v.Legible room →
    (Outline.ofJson v).depth ≤ room' → v.Legible room'
  | .null, _, _, _ => by simp [Legible]
  | .bool _, _, _, _ => by simp [Legible]
  | .num _, _, h, _ => by simpa [Legible] using h
  | .str _, _, _, _ => by simp [Legible]
  | .arr vs, room', h, hdepth => by
      rw [Outline.ofJson, Outline.depth] at hdepth
      rw [Legible] at h ⊢
      exact ⟨by omega, LegibleItems.of_depth_le h.2 (by omega)⟩
  | .obj ms, room', h, hdepth => by
      rw [Outline.ofJson, Outline.depth] at hdepth
      rw [Legible] at h ⊢
      exact ⟨by omega, LegibleMembers.of_depth_le h.2 (by omega)⟩

theorem LegibleItems.of_depth_le {room : ℕ} : ∀ {vs : List Json} {room' : ℕ},
    LegibleItems room vs → Outline.depthItems (Outline.ofItems vs) ≤ room' → LegibleItems room' vs
  | [], _, _, _ => by simp [LegibleItems]
  | v :: vs, room', h, hdepth => by
      rw [Outline.ofItems, Outline.depthItems] at hdepth
      rw [LegibleItems] at h ⊢
      exact ⟨h.1.of_depth_le (by omega), LegibleItems.of_depth_le h.2 (by omega)⟩

theorem LegibleMembers.of_depth_le {room : ℕ} : ∀ {ms : List (String × Json)} {room' : ℕ},
    LegibleMembers room ms → Outline.depthMembers (Outline.ofMembers ms) ≤ room' →
      LegibleMembers room' ms
  | [], _, _, _ => by simp [LegibleMembers]
  | (_, v) :: ms, room', h, hdepth => by
      rw [Outline.ofMembers, Outline.depthMembers] at hdepth
      rw [LegibleMembers] at h ⊢
      exact ⟨h.1.of_depth_le (by omega), LegibleMembers.of_depth_le h.2 (by omega)⟩

end

/-- The value can be scanned with enough room for its brackets. -/
def Sound (v : Json) : Prop :=
  ∃ room, v.Legible room

theorem Sound.legible {v : Json} {room : ℕ} (h : v.Sound) (hdepth : (Outline.ofJson v).depth ≤ room) :
    v.Legible room := by
  obtain ⟨_, hlegible⟩ := h
  exact hlegible.of_depth_le hdepth

theorem sound_null : Sound .null :=
  ⟨0, by simp [Legible]⟩

theorem sound_str (s : String) : (str s).Sound :=
  ⟨0, by simp [Legible]⟩

theorem legibleItems_of_sound {vs : List Json} (h : ∀ v ∈ vs, v.Sound) {room : ℕ}
    (hdepth : Outline.depthItems (Outline.ofItems vs) ≤ room) : LegibleItems room vs := by
  induction vs with
  | nil => simp [LegibleItems]
  | cons v vs ih =>
      rw [Outline.ofItems, Outline.depthItems] at hdepth
      rw [List.forall_mem_cons] at h
      rw [LegibleItems]
      exact ⟨h.1.legible (by omega), ih h.2 (by omega)⟩

theorem legibleMembers_of_sound {ms : List (String × Json)} (h : ∀ m ∈ ms, m.2.Sound) {room : ℕ}
    (hdepth : Outline.depthMembers (Outline.ofMembers ms) ≤ room) : LegibleMembers room ms := by
  induction ms with
  | nil => simp [LegibleMembers]
  | cons m ms ih =>
      rw [Outline.ofMembers, Outline.depthMembers] at hdepth
      rw [List.forall_mem_cons] at h
      rw [LegibleMembers]
      exact ⟨h.1.legible (by omega), ih h.2 (by omega)⟩

theorem sound_arr {vs : List Json} (h : ∀ v ∈ vs, v.Sound) : (arr vs).Sound := by
  refine ⟨Outline.depthItems (Outline.ofItems vs) + 1, ?_⟩
  rw [Legible]
  exact ⟨Nat.succ_pos _, legibleItems_of_sound h le_rfl⟩

theorem sound_obj {ms : List (String × Json)} (h : ∀ m ∈ ms, m.2.Sound) : (obj ms).Sound := by
  refine ⟨Outline.depthMembers (Outline.ofMembers ms) + 1, ?_⟩
  rw [Legible]
  exact ⟨Nat.succ_pos _, legibleMembers_of_sound h le_rfl⟩

/-! ## Reading back -/

variable {α β σ : Type} {d : Decoder β} {v : Json}

/-- The printed value can be scanned, and it is read as `a` where there is room for its brackets. -/
structure Decoder.ReadsAs (d : Decoder α) (v : Json) (a : α) : Prop where
  sound : v.Sound
  read : ∀ s : Setting, (Outline.ofJson v).depth ≤ s.room → d s (.ofJson v) = .ok a

/-- An object takes one bracket, and there has to be room for its members inside. -/
theorem Decoder.ReadsAs.of_obj {b : β} {ms : List (String × Json)} (hsound : (obj ms).Sound)
    (h : ∀ manner room, Outline.depthMembers (Outline.ofMembers ms) ≤ room →
      d ⟨manner, room + 1⟩ (.ofJson (.obj ms)) = .ok b) : d.ReadsAs (.obj ms) b where
  sound := hsound
  read s hs := by
    obtain ⟨manner, room⟩ := s
    rw [Outline.ofJson, Outline.depth] at hs
    obtain ⟨room, rfl⟩ := Nat.exists_eq_add_of_le' (Nat.le_of_add_left_le hs)
    exact h manner room (Nat.le_of_succ_le_succ hs)

/-- A value with few enough brackets is read from its text. -/
theorem Decoder.ReadsAs.readStreamed {b : β} (h : d.ReadsAs v b)
    (hdepth : (Outline.ofJson v).depth ≤ Setting.depthLimit) {layout : Layout}
    (hL : layout.IsBlank) : readStreamed d (String.ofList (chars layout 0 v)) = .ok b := by
  have hread := readStreamed_chars d hL (h.sound.legible hdepth)
    fun _ hd => absurd hd List.not_mem_nil
  rw [List.append_nil] at hread
  rw [hread]
  exact h.read _ hdepth

namespace Decoder

theorem string_readsAs (s : String) : string.ReadsAs (.str s) s where
  sound := sound_str s
  read _ _ := rfl

theorem ReadsAs.map {b : β} (h : d.ReadsAs v b) (f : β → α) :
    ReadsAs (fun s o => (d s o).map f) v (f b) where
  sound := h.sound
  read s hs := by rw [h.read s hs, Except.map]

variable {write : α → Json} {f : α → β}

theorem ReadsAs.nullable {x : Option α} (h : ∀ a ∈ x, d.ReadsAs (write a) (f a))
    (hnull : ∀ a ∈ x, write a ≠ .null) : d.nullable.ReadsAs (.ofOption write x) (x.map f) := by
  cases x with
  | none => exact ⟨sound_null, fun _ _ => rfl⟩
  | some a =>
      refine ⟨(h a rfl).sound, fun s hs => ?_⟩
      have hread := nullable_ofOption d s (fun _ : Unit => write a) (fun _ => hnull a rfl) (some ())
      rw [Option.elim, (h a rfl).read s hs] at hread
      exact hread

theorem ReadsAs.items {xs : List α} (h : ∀ x ∈ xs, d.ReadsAs (write x) (f x)) (s : Setting)
    (hdepth : Outline.depthItems (Outline.ofItems (xs.map write)) ≤ s.room) :
    items d s (Outline.ofItems (xs.map write)) = .ok (xs.map f) := by
  induction xs with
  | nil => rfl
  | cons x xs ih =>
      rw [List.map_cons, Outline.ofItems, Outline.depthItems] at hdepth
      rw [List.forall_mem_cons] at h
      have hx := h.1.read s (by omega)
      have hxs := ih h.2 (by omega)
      rw [List.map_cons, Outline.ofItems, Decoder.items, hx, hxs]
      rfl

theorem ReadsAs.list {xs : List α} (h : ∀ x ∈ xs, d.ReadsAs (write x) (f x)) :
    d.list.ReadsAs (.ofList write xs) (xs.map f) where
  sound := sound_arr fun v hv => by
    obtain ⟨x, hx, rfl⟩ := List.mem_map.mp hv
    exact (h x hx).sound
  read s hs := by
    obtain ⟨manner, room⟩ := s
    rw [Json.ofList, Outline.ofJson, Outline.depth] at hs
    obtain ⟨room, rfl⟩ := Nat.exists_eq_add_of_le' (Nat.le_of_add_left_le hs)
    have hitems := ReadsAs.items h ⟨manner, room⟩ (Nat.le_of_succ_le_succ hs)
    rw [Json.ofList, Outline.ofJson, Decoder.list]
    change (Decoder.items d ⟨manner, room⟩ _ >>= fun as => .ok as) = _
    rw [hitems]
    rfl

end Decoder

/-! ## Records -/

/-- The value of the field can be scanned, and reading it changes the record by `g`. -/
structure Field.ReadsAs (f : Field σ) (v : Json) (g : σ → σ) : Prop where
  sound : v.Sound
  read : ∀ (s : Setting) (a : σ), (Outline.ofJson v).depth ≤ s.room →
    f.read s (.ofJson v) a = .ok (g a)

theorem Field.ReadsAs.of {b : β} (h : d.ReadsAs v b) {name : String} {absence : Absence}
    {put : β → σ → σ} : (Field.of name absence d put).ReadsAs v (put b) where
  sound := h.sound
  read s a hs := congrArg (Except.map fun x => put x a) (h.read s hs)

namespace Record

/-- The values are read by the fields one after the other, which turns one record into another. -/
inductive FieldsRead : List (Field σ) → List Json → σ → σ → Prop
  | nil (a : σ) : FieldsRead [] [] a a
  | cons {f : Field σ} {fs : List (Field σ)} {v : Json} {vs : List Json} {g : σ → σ} {a b : σ}
      (hf : f.ReadsAs v g) (hfs : FieldsRead fs vs (g a) b) : FieldsRead (f :: fs) (v :: vs) a b

variable {fs : List (Field σ)} {vs : List Json} {a b : σ}

theorem FieldsRead.length_eq (h : FieldsRead fs vs a b) : vs.length = fs.length := by
  induction h with
  | nil => rfl
  | cons _ _ ih => rw [List.length_cons, List.length_cons, ih]

theorem FieldsRead.sound (h : FieldsRead fs vs a b) : ∀ v ∈ vs, v.Sound := by
  induction h with
  | nil => exact fun v hv => absurd hv List.not_mem_nil
  | cons hf _ ih => exact List.forall_mem_cons.mpr ⟨hf.sound, ih⟩

theorem FieldsRead.readFields (h : FieldsRead fs vs a b) (s : Setting)
    (hdepth : Outline.depthMembers (Outline.ofMembers ((fs.map Field.name).zip vs)) ≤ s.room) :
    readFields s fs vs a = .ok b := by
  induction h with
  | nil => rfl
  | @cons f fs v vs g a b hf _ ih =>
      rw [List.map_cons, List.zip_cons_cons, Outline.ofMembers, Outline.depthMembers] at hdepth
      have hread := hf.read s a (by omega)
      rw [Record.readFields, hread]
      exact ih (by omega)

/-- A printed record is read as the record that its fields make of it. -/
theorem decoder_readsAs (r : Record σ) (hnodup : (r.fields.map Field.name).Nodup)
    (h : FieldsRead r.fields vs r.blank a) {ms : List (String × Json)}
    (hms : ms = (r.fields.map Field.name).zip vs) : r.decoder.ReadsAs (.obj ms) a := by
  refine .of_obj (sound_obj fun m hm => ?_) fun manner room hroom => ?_
  · rw [hms] at hm
    exact h.sound _ (List.of_mem_zip hm).2
  · rw [r.decoder_inOrder hnodup vs h.length_eq hms]
    rw [hms] at hroom
    exact h.readFields ⟨manner, room⟩ hroom

end Record

/-! ## Cases -/

/-- The name of a case that carries something, with what it carries, is read as this case. -/
theorem Case.decoder_readsAs {cases : List (Case α)} {c : Case α} {name : String} {a : α}
    (hfind : (cases.find? fun c => c.name == name) = some c) (h : Decoder.ReadsAs c.readPayload v a) :
    (Case.decoder cases).ReadsAs (.obj [(name, v)]) a := by
  have hselect : select cases name = .ok c := by rw [select, hfind]
  refine .of_obj (sound_obj fun m hm => ?_) fun manner room hroom => ?_
  · rw [List.mem_singleton.mp hm]
    exact h.sound
  · rw [Outline.ofMembers, Outline.ofMembers, Outline.depthMembers, Outline.depthMembers,
      Nat.max_zero] at hroom
    -- What is streamed is read inside the bracket; what was taken in before is read in its place.
    have hinside := h.read ⟨manner, room⟩ hroom
    have houtside := h.read ⟨manner, room + 1⟩ (Nat.le_succ_of_le hroom)
    have hbelow : Setting.inside ⟨manner, room + 1⟩ = .ok ⟨manner, room⟩ := rfl
    cases manner <;>
      simp [decoder, streamed, taken, Outline.ofJson, Outline.ofMembers, hbelow, hselect, hinside,
        houtside, Key.read, orBroken, Stop.checkNow, Stop.check, bind, Except.bind, pure,
        Except.pure]

end Json
end DesignPages
