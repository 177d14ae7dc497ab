import DesignPages.Proofs.Json.Content

/-!
# Readers that go by what a value says

A reader that knows certain names makes the same of any two values that say the same, once these are
arranged: it reads the same, or it finds the same fault first.  This holds for the readers of texts
and numbers, which only look at the value itself, and it is carried through options, lists and records
whose fields have known names.
-/

namespace DesignPages
namespace Json

variable {α σ : Type} {names : List String}

/-! ## Readers of values -/

/-- The reader makes the same of the arranged forms of two values that are alike. -/
def Decoder.Respects (names : List String) (d : Decoder α) : Prop :=
  ∀ (s : Setting) (v w : Json), Alike names v w →
    d s (.ofJson v.arrange) = d s (.ofJson w.arrange)

namespace Decoder

variable {d : Decoder α}

theorem string_respects : string.Respects names := by
  intro s v w h
  have hrefuse := h.refuse_eq .string
  cases h.same with
  | str t => rfl
  | _ => exact congrArg Except.error hrefuse

theorem boolean_respects : boolean.Respects names := by
  intro s v w h
  have hrefuse := h.refuse_eq .boolean
  cases h.same with
  | bool b => rfl
  | _ => exact congrArg Except.error hrefuse

theorem double_respects : double.Respects names := by
  intro s v w h
  have hrefuse := h.refuse_eq .double
  cases h.same with
  | num hl => simp only [arrange, Outline.ofJson, double, hl]
  | _ => exact congrArg Except.error hrefuse

theorem single_respects : single.Respects names := by
  intro s v w h
  have hrefuse := h.refuse_eq .single
  cases h.same with
  | num hl => simp only [arrange, Outline.ofJson, single, hl]
  | _ => exact congrArg Except.error hrefuse

theorem Respects.nullable (hd : d.Respects names) : d.nullable.Respects names := by
  intro s v w h
  have hread := hd s v w h
  cases h.same with
  | null => rfl
  | _ => exact congrArg (Except.map some) hread

theorem Respects.items (hd : d.Respects names) (s : Setting) {vs ws : List Json}
    (h : List.Forall₂ (Alike names) vs ws) :
    items d s (Outline.ofItems (arrangeItems vs)) =
      items d s (Outline.ofItems (arrangeItems ws)) := by
  induction h with
  | nil => rfl
  | cons hvw _ ih =>
      rw [arrangeItems, arrangeItems, Outline.ofItems, Outline.ofItems, Decoder.items, Decoder.items,
        hd s _ _ hvw, ih]

theorem Respects.list (hd : d.Respects names) : d.list.Respects names := by
  intro s v w h
  have hrefuse := h.refuse_eq .sequence
  cases h.same with
  | arr _ => simp only [arrange, Outline.ofJson, Decoder.list, hd.items _ h.items]
  | _ => exact congrArg Except.error hrefuse

end Decoder

/-! ## Values that are skipped -/

mutual

/-- A printed value that nobody reads is sound. -/
theorem Outline.skip_ofJson : ∀ v : Json, (ofJson v).skip = .ok ()
  | .null => by rw [ofJson, skip]
  | .bool _ => by rw [ofJson, skip]
  | .num _ => by rw [ofJson, skip]
  | .str _ => by rw [ofJson, skip]
  | .arr vs => by
      rw [ofJson, skip, skipItems_ofItems vs]
      rfl
  | .obj ms => by
      rw [ofJson, skip, skipMembers_ofMembers ms]
      rfl

theorem Outline.skipItems_ofItems : ∀ vs : List Json, skipItems (ofItems vs) = .ok ()
  | [] => by rw [ofItems, skipItems]
  | v :: vs => by
      rw [ofItems, skipItems, skip_ofJson v]
      exact skipItems_ofItems vs

theorem Outline.skipMembers_ofMembers : ∀ ms : List (String × Json),
    skipMembers (ofMembers ms) = .ok ()
  | [] => by rw [ofMembers, skipMembers]
  | (_, v) :: ms => by
      rw [ofMembers, skipMembers, skip_ofJson v]
      exact skipMembers_ofMembers ms

end

/-! ## Records -/

/-- The name of the field is known, and it reads the same from two values that are alike. -/
structure Field.Respects (names : List String) (f : Field σ) : Prop where
  name_mem : f.name ∈ names
  read : ∀ (s : Setting) (a : σ) (v w : Json), Alike names v w →
    f.read s (.ofJson v.arrange) a = f.read s (.ofJson w.arrange) a

theorem Field.Respects.of {d : Decoder α} (hd : d.Respects names) {name : String}
    (hname : name ∈ names) {absence : Absence} {put : α → σ → σ} :
    (Field.of name absence d put).Respects names where
  name_mem := hname
  read s a v w h := congrArg (Except.map fun x => put x a) (hd s v w h)

namespace Record

variable {r : Record σ} {s : Setting}

theorem mem_fields_of_field? {name : String} {f : Field σ} (h : r.field? name = some f) :
    f ∈ r.fields ∧ f.name = name :=
  ⟨List.mem_of_find?_eq_some h, by simpa using List.find?_some h⟩

/-- Members with unknown names are skipped. -/
theorem readMembers_known (hr : ∀ f ∈ r.fields, f.Respects names) (ms : List (String × Json))
    (seen : List String) (a : σ) :
    r.readMembers s (Outline.ofMembers (known names ms)) seen a =
      r.readMembers s (Outline.ofMembers ms) seen a := by
  induction ms generalizing seen a with
  | nil => rfl
  | cons m ms ih =>
      obtain ⟨k, v⟩ := m
      by_cases hk : k ∈ names
      · have hknown : known names ((k, v) :: ms) = (k, v) :: known names ms :=
          List.filter_cons_of_pos (decide_eq_true hk)
        simp only [hknown, Outline.ofMembers, readMembers, ih]
      · have hknown : known names ((k, v) :: ms) = known names ms :=
          List.filter_cons_of_neg (by simpa using hk)
        have hfield : r.field? k = none := by
          rw [Option.eq_none_iff_forall_not_mem]
          intro f hf
          obtain ⟨hmem, rfl⟩ := mem_fields_of_field? hf
          exact hk (hr f hmem).name_mem
        rw [hknown, ih, Outline.ofMembers, readMembers]
        simp only [Key.read, orBroken, hfield, Outline.skip_ofJson, bind, Except.bind]

/-- Members that are alike one by one are read alike. -/
theorem readMembers_congr (hr : ∀ f ∈ r.fields, f.Respects names) {ms ns : List (String × Json)}
    (h : List.Forall₂ (fun m n => m.1 = n.1 ∧ ArrangedAlike names m.2 n.2) ms ns)
    (seen : List String) (a : σ) :
    r.readMembers s (Outline.ofMembers ms) seen a =
      r.readMembers s (Outline.ofMembers ns) seen a := by
  induction h generalizing seen a with
  | nil => rfl
  | @cons m n ms ns hmn _ ih =>
      obtain ⟨k, v⟩ := m
      obtain ⟨k', w⟩ := n
      obtain ⟨rfl, v, w, halike, rfl, rfl⟩ := hmn
      simp only [Outline.ofMembers, readMembers, Key.read, orBroken, bind, Except.bind, ih,
        Outline.skip_ofJson]
      cases hf : r.field? k with
      | none => rfl
      | some f => simp only [(hr f (mem_fields_of_field? hf).1).read s a v w halike]

theorem ofMembers_congr (hr : ∀ f ∈ r.fields, f.Respects names) {ms ns : List (String × Json)}
    (h : Alike names (.obj ms) (.obj ns)) :
    r.ofMembers s (Outline.ofMembers (arrangeMembers ms [])) .closed =
      r.ofMembers s (Outline.ofMembers (arrangeMembers ns [])) .closed := by
  have hread : r.readMembers s (Outline.ofMembers (arrangeMembers ms [])) [] r.blank =
      r.readMembers s (Outline.ofMembers (arrangeMembers ns [])) [] r.blank := by
    rw [← readMembers_known hr, readMembers_congr hr h.forall₂_known, readMembers_known hr]
  rw [ofMembers, ofMembers, hread]

theorem readElements_congr {vs ws : List Json} (h : List.Forall₂ (Alike names) vs ws) (stop : Stop) :
    ∀ (index : ℕ) (fs : List (Field σ)) (a : σ), (∀ f ∈ fs, f.Respects names) →
      r.readElements s stop index (Outline.ofItems (arrangeItems vs)) fs a =
        r.readElements s stop index (Outline.ofItems (arrangeItems ws)) fs a := by
  induction h with
  | nil => exact fun _ _ _ _ => rfl
  | @cons v w vs ws hvw hrest ih =>
      intro index fs a hfs
      simp only [arrangeItems, Outline.ofItems]
      cases fs with
      | nil =>
          simp only [readElements, List.length_cons, length_ofItems_arrangeItems, hrest.length_eq]
      | cons f fs =>
          rw [List.forall_mem_cons] at hfs
          have hmore (b : σ) := ih (index + 1) fs b hfs.2
          simp only [readElements, hfs.1.read s a v w hvw, hmore]

theorem decoder_respects (hr : ∀ f ∈ r.fields, f.Respects names) : r.decoder.Respects names := by
  intro s v w h
  have hrefuse := h.refuse_eq (.record r.name)
  cases h.same with
  | arr _ => simp only [arrange, Outline.ofJson, decoder, readElements_congr h.items _ _ _ _ hr]
  | obj _ => simp only [arrange, Outline.ofJson, decoder, ofMembers_congr hr h]
  | _ => exact congrArg Except.error hrefuse

end Record

/-! ## Texts -/

/-- The text holds a value and nothing else but white space around it, with few enough brackets inside
each other. -/
def Holds (text : String) (v : Json) : Prop :=
  ∃ o rest, Outline.ofChars text.toList = (o, some rest) ∧
    o.visit Setting.depthLimit = .ok v ∧ Scan.skipSpace rest = []

theorem readWhole_of_holds {text : String} {v : Json} (h : Holds text v) :
    readWhole text = .ok v.arrange := by
  obtain ⟨o, rest, houtline, hvisit, hrest⟩ := h
  have hend : checkRest (some rest) = .ok () := if_pos hrest
  simp only [readWhole, houtline, hvisit, hend]
  rfl

/-- A printed text holds the value that was printed. -/
theorem holds_chars {layout : Layout} (hL : layout.IsBlank) {v : Json}
    (h : v.Legible Setting.depthLimit) : Holds (String.ofList (chars layout 0 v)) v := by
  have houtline := Outline.ofChars_chars hL h fun _ hd => absurd hd List.not_mem_nil
  rw [List.append_nil] at houtline
  exact ⟨_, _, by rw [String.toList_ofList, houtline], Outline.visit_ofJson v _ h, rfl⟩

end Json
end DesignPages
