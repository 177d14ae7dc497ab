import DesignPages.Frame.Wire
import DesignPages.Proofs.Category.Label
import DesignPages.Proofs.Style.Wire

/-!
# Analyzed frames through their text

Frames that are printed and read again are the same up to their numbers.  This holds for frames whose
background is finite, given that their boxes and borders are; one frame with any other background
spoils the whole text.
-/

namespace DesignPages

open Json (Decoder Fault Field Manner Outline Setting)

/-! ## Lists -/

namespace Json

theorem legibleItems_map {α : Type} {write : α → Json} {room : ℕ}
    (h : ∀ a, (write a).Legible room) (xs : List α) : LegibleItems room (xs.map write) := by
  induction xs with
  | nil => simp [LegibleItems]
  | cons x xs ih => simpa [LegibleItems, h x] using ih

theorem legible_ofList {α : Type} {write : α → Json} {room : ℕ}
    (h : ∀ a, (write a).Legible room) (xs : List α) : (ofList write xs).Legible (room + 1) := by
  simpa [ofList, Legible] using legibleItems_map h xs

namespace Decoder

variable {α β : Type} {d : Decoder β} {s : Setting} {write : α → Json}

/-- If every item is read, all of them are. -/
theorem items_eq_ok {f : α → β} {xs : List α}
    (h : ∀ x ∈ xs, d s (.ofJson (write x)) = .ok (f x)) :
    items d s (xs.map fun x => .ofJson (write x)) = .ok (xs.map f) := by
  induction xs with
  | nil => rfl
  | cons x xs ih =>
      rw [List.forall_mem_cons] at h
      rw [List.map_cons, items, h.1, ih h.2]
      rfl

/-- If some item is not read, and there is only one reason for it, this is the fault. -/
theorem items_eq_error {e : Fault} {xs : List α}
    (h : ∀ x ∈ xs, (∃ y, d s (.ofJson (write x)) = .ok y) ∨ d s (.ofJson (write x)) = .error e)
    (hbad : ∃ x ∈ xs, d s (.ofJson (write x)) = .error e) :
    items d s (xs.map fun x => .ofJson (write x)) = .error e := by
  induction xs with
  | nil => obtain ⟨x, hx, -⟩ := hbad; exact absurd hx List.not_mem_nil
  | cons x xs ih =>
      rw [List.map_cons, items]
      rcases h x List.mem_cons_self with ⟨y, hy⟩ | hx
      · have hrest := ih (fun z hz => h z (List.mem_cons_of_mem _ hz)) <| by
          obtain ⟨z, hz, hzbad⟩ := hbad
          rcases List.mem_cons.mp hz with rfl | hz
          · rw [hy] at hzbad
            exact absurd hzbad (by simp)
          · exact ⟨z, hz, hzbad⟩
        rw [hy, hrest]
        rfl
      · rw [hx]
        rfl

theorem list_ofTexts (manner : Manner) (room : ℕ) (xs : List String) :
    list string ⟨manner, room + 1⟩ (.ofJson (.ofTexts xs)) = .ok xs := by
  rw [Json.ofTexts, list_ofList]
  induction xs with
  | nil => rfl
  | cons x xs ih =>
      rw [List.map_cons, items, ih]
      rfl

end Decoder
end Json

/-! ## Boxes -/

namespace Box

/-- Whether the place and the size are numbers. -/
def isFinite (b : Box) : Bool :=
  (Number.ofDouble b.x).isFinite && (Number.ofDouble b.y).isFinite &&
    (Number.ofDouble b.width).isFinite && (Number.ofDouble b.height).isFinite

/-- The box that is read from the text of a box. -/
def reread (b : Box) : Box :=
  ⟨Json.rereadDouble b.x, Json.rereadDouble b.y, Json.rereadDouble b.width,
    Json.rereadDouble b.height⟩

/-- The texts of the place and of the size read back. -/
structure NumbersReadBack (b : Box) : Prop where
  x : Json.ReadsBack Decoder.double .ofDouble b.x
  y : Json.ReadsBack Decoder.double .ofDouble b.y
  width : Json.ReadsBack Decoder.double .ofDouble b.width
  height : Json.ReadsBack Decoder.double .ofDouble b.height

variable {b : Box}

theorem legible_toJson (room : ℕ) (b : Box) : b.toJson.Legible (room + 1) := by
  simp [toJson, Json.Legible, Json.LegibleMembers, Json.legible_ofDouble]

theorem isFinite_iff : b.isFinite = true ↔
    (Number.ofDouble b.x).isFinite = true ∧ (Number.ofDouble b.y).isFinite = true ∧
      (Number.ofDouble b.width).isFinite = true ∧ (Number.ofDouble b.height).isFinite = true := by
  simp only [isFinite, Bool.and_eq_true, and_assoc]

/-- A finite box is read. -/
theorem decoder_toJson (manner : Manner) (room : ℕ) (h : b.isFinite = true) :
    record.decoder ⟨manner, room + 1⟩ (.ofJson b.toJson) = .ok b.reread := by
  obtain ⟨hx, hy, hwidth, hheight⟩ := isFinite_iff.mp h
  have hnodup : (record.fields.map Field.name).Nodup := by decide
  refine (record.decoder_inOrder hnodup
    [.ofDouble b.x, .ofDouble b.y, .ofDouble b.width, .ofDouble b.height] rfl rfl manner
    room).trans ?_
  simp only [record, Json.Record.readFields, Field.of, Decoder.double_ofDouble _ hx,
    Decoder.double_ofDouble _ hy, Decoder.double_ofDouble _ hwidth,
    Decoder.double_ofDouble _ hheight]
  rfl

/-- A box without a place is read as the box of this size at the origin. -/
theorem decoder_ofSize (manner : Manner) (room : ℕ) {width height : Float}
    (hwidth : (Number.ofDouble width).isFinite = true)
    (hheight : (Number.ofDouble height).isFinite = true) :
    record.decoder ⟨manner, room + 1⟩
        (.ofJson (.obj [("width", .ofDouble width), ("height", .ofDouble height)])) =
      .ok (.ofSize (Json.rereadDouble width) (Json.rereadDouble height)) := by
  have hw := Decoder.double_ofDouble ⟨manner, room⟩ hwidth
  have hh := Decoder.double_ofDouble ⟨manner, room⟩ hheight
  have hwidthField : record.field? "width" =
      some (.of "width" .required Decoder.double fun v b => { b with width := v }) := rfl
  have hheightField : record.field? "height" =
      some (.of "height" .required Decoder.double fun v b => { b with height := v }) := rfl
  have hread : record.readMembers ⟨manner, room⟩
      (Json.Outline.ofMembers [("width", .ofDouble width), ("height", .ofDouble height)]) []
        record.blank =
      .ok (["height", "width"], .ofSize (Json.rereadDouble width) (Json.rereadDouble height)) := by
    simp only [Json.Outline.ofMembers, Json.Record.readMembers, Json.Key.read, Json.orBroken,
      hwidthField, hheightField, Json.Field.of, hw, hh, bind, Except.bind]
    rfl
  rw [Json.Outline.ofJson]
  change record.ofMembers ⟨manner, room⟩ _ .closed = _
  rw [Json.Record.ofMembers, hread]
  rfl

theorem reread_eq_self_iff (h : b.isFinite = true) : b.reread = b ↔ b.NumbersReadBack := by
  obtain ⟨hx, hy, hwidth, hheight⟩ := isFinite_iff.mp h
  have hall : b.reread = b ↔ Json.rereadDouble b.x = b.x ∧ Json.rereadDouble b.y = b.y ∧
      Json.rereadDouble b.width = b.width ∧ Json.rereadDouble b.height = b.height := by
    cases b
    exact Eq.to_iff (mk.injEq ..)
  rw [hall, Json.rereadDouble_eq_self_iff hx, Json.rereadDouble_eq_self_iff hy,
    Json.rereadDouble_eq_self_iff hwidth, Json.rereadDouble_eq_self_iff hheight]
  constructor
  · rintro ⟨hx, hy, hwidth, hheight⟩
    exact ⟨hx, hy, hwidth, hheight⟩
  · rintro ⟨hx, hy, hwidth, hheight⟩
    exact ⟨hx, hy, hwidth, hheight⟩

end Box

/-! ## Facts about frames -/

namespace Frame

/-- The lengths in the facts about a frame are numbers. -/
structure IsMeasured (f : Frame) : Prop where
  box : f.box.all Box.isFinite = true
  border : f.style.hasFiniteBorder = true

/-- The facts that are read from the text of facts about a frame. -/
def reread (f : Frame) : Frame :=
  { f with box := f.box.map Box.reread, style := f.style.reread }

theorem legibleMembers (room : ℕ) (f : Frame) : Json.LegibleMembers (room + 2) f.members := by
  have htexts : (Json.ofTexts f.texts).Legible (room + 2) :=
    Json.legible_ofList (fun t => by simp [Json.Legible]) f.texts
  simp [members, Json.Legible, Json.LegibleMembers, htexts, StyleTokens.legible_toJson room,
    Json.legible_ofOption (Box.legible_toJson (room + 1))]

end Frame

namespace LabeledFrame

/-- Stored facts are read as soon as the style is. -/
theorem readFacts_members {f : Frame} (h : f.IsMeasured) :
    readFacts f.members =
      (StyleTokens.record.decoder ⟨.stored, Setting.depthLimit⟩ (.ofJson f.style.toJson)).map
        fun s => { f with box := f.box.map Box.reread, style := s } := by
  have hnodup : (Frame.record.fields.map Field.name).Nodup := by decide
  have htexts : Decoder.list Decoder.string ⟨.stored, Setting.depthLimit⟩
      (.ofJson (.ofTexts f.texts)) = .ok f.texts :=
    Decoder.list_ofTexts .stored 126 f.texts
  have hfinite := h.box
  rw [Option.all_eq_true] at hfinite
  have hbox := Decoder.nullable_ofOption_map Box.record.decoder ⟨.stored, Setting.depthLimit⟩
    Box.toJson Box.reread (fun _ _ => by simp [Box.toJson]) fun b hb =>
      Box.decoder_toJson .stored 126 (hfinite b hb)
  refine (Frame.record.ofMembers_inOrder _ hnodup
    [.str f.id, .str f.name, .ofTexts f.texts, .bool f.hasChildFrames,
      .ofOption Box.toJson f.box, f.style.toJson] rfl rfl).trans ?_
  simp only [Frame.record, Json.Record.readFields, Field.of, htexts, hbox]
  cases StyleTokens.record.decoder ⟨.stored, Setting.depthLimit⟩ (.ofJson f.style.toJson) <;> rfl

/-- Members that are neither the label nor the mark are stored. -/
theorem readMembers_stored (s : Setting) :
    ∀ (stored ms : List (String × Json)) (p : Progress),
      (∀ m ∈ stored, m.1 ≠ "type" ∧ m.1 ≠ "shouldSkip") → Json.LegibleMembers s.room stored →
      readMembers s (Outline.ofMembers (stored ++ ms)) p =
        readMembers s (Outline.ofMembers ms) { p with stored := stored.reverse ++ p.stored }
  | [], _, _, _, _ => rfl
  | (name, v) :: stored, ms, p, hnames, hlegible => by
      rw [Json.LegibleMembers] at hlegible
      obtain ⟨htype, hmark⟩ := hnames (name, v) List.mem_cons_self
      have hvisit := Outline.visit_ofJson v s.room hlegible.1
      have hrest := readMembers_stored s stored ms { p with stored := (name, v) :: p.stored }
        (fun m hm => hnames m (List.mem_cons_of_mem _ hm)) hlegible.2
      rw [List.cons_append, Outline.ofMembers, readMembers]
      simp only [Json.Key.read, Json.orBroken, bind, Except.bind, if_neg htype, if_neg hmark,
        hvisit, hrest, List.reverse_cons, List.append_assoc, List.singleton_append]

/-- A printed frame is read as soon as its style is. -/
theorem decoder_toJson (room : ℕ) {a : AnalyzedFrame} (h : a.frame.IsMeasured) :
    decoder ⟨.streamed, room + 3⟩ (.ofJson a.toJson) =
      (StyleTokens.record.decoder ⟨.stored, Setting.depthLimit⟩ (.ofJson a.frame.style.toJson)).map
        fun s => ⟨{ a.frame with box := a.frame.box.map Box.reread, style := s },
          a.category.label, a.shouldSkip⟩ := by
  have hstored := readMembers_stored ⟨.streamed, room + 2⟩ a.frame.members
    [("type", .str a.category.label), ("shouldSkip", .bool a.shouldSkip)] ⟨none, none, []⟩
    (by simp [Frame.members]) (a.frame.legibleMembers room)
  have hrest : readMembers ⟨.streamed, room + 2⟩
      (Outline.ofMembers (a.frame.members ++
        [("type", .str a.category.label), ("shouldSkip", .bool a.shouldSkip)])) ⟨none, none, []⟩ =
      .ok ⟨some a.category.label, some a.shouldSkip, a.frame.members.reverse⟩ := by
    rw [hstored, List.append_nil]
    rfl
  simp only [AnalyzedFrame.toJson, Outline.ofJson, decoder, Setting.inside]
  change (readMembers ⟨.streamed, room + 2⟩ _ ⟨none, none, []⟩ >>= _) = _
  rw [hrest]
  simp only [bind, Except.bind, Json.Stop.check, Json.orBroken, List.reverse_reverse,
    readFacts_members h]
  cases StyleTokens.record.decoder ⟨.stored, Setting.depthLimit⟩ (.ofJson a.frame.style.toJson) <;>
    rfl

/-- A printed frame with finite numbers is read, and bears the label of its category. -/
theorem decoder_toJson_of_finite (room : ℕ) {a : AnalyzedFrame} (h : a.frame.IsMeasured)
    (hfinite : a.frame.style.hasFiniteBackground = true) :
    decoder ⟨.streamed, room + 3⟩ (.ofJson a.toJson) =
      .ok ⟨a.frame.reread, a.category.label, a.shouldSkip⟩ := by
  rw [decoder_toJson room h, show Setting.depthLimit = 125 + 2 from rfl,
    StyleTokens.decoder_toJson_of_finite .stored 125 h.border hfinite]
  rfl

theorem decoder_toJson_of_not_finite (room : ℕ) {a : AnalyzedFrame} (h : a.frame.IsMeasured)
    (hfinite : a.frame.style.hasFiniteBackground = false) :
    decoder ⟨.streamed, room + 3⟩ (.ofJson a.toJson) = .error .nullChannel := by
  rw [decoder_toJson room h, show Setting.depthLimit = 125 + 2 from rfl,
    StyleTokens.decoder_toJson_of_not_finite .stored 125 h.border hfinite]
  rfl

end LabeledFrame

/-! ## Analyzed frames -/

namespace AnalyzedFrame

/-- The frame that is read from the text of a frame. -/
def reread (a : AnalyzedFrame) : AnalyzedFrame :=
  { a with frame := a.frame.reread }

theorem legible_toJson (room : ℕ) (a : AnalyzedFrame) : a.toJson.Legible (room + 3) := by
  have hmembers := a.frame.legibleMembers room
  simp only [Frame.members, Json.LegibleMembers] at hmembers
  simpa [toJson, Frame.members, Json.Legible, Json.LegibleMembers] using hmembers

theorem legible_listToJson (as : List AnalyzedFrame) :
    (listToJson as).Legible Setting.depthLimit :=
  Json.legible_ofList (fun a => a.legible_toJson 123) as

end AnalyzedFrame

namespace LabeledFrame

variable {layout : Json.Layout} {blank : List Char} {as : List AnalyzedFrame}

/-- The frame that is read from the text of a frame, with the label of its category. -/
def rereadOf (a : AnalyzedFrame) : LabeledFrame :=
  ⟨a.frame.reread, a.category.label, a.shouldSkip⟩

theorem mapM_categorize_rereadOf (as : List AnalyzedFrame) :
    (as.map rereadOf).mapM categorize = .ok (as.map AnalyzedFrame.reread) := by
  induction as with
  | nil => rfl
  | cons a as ih =>
      have ha : categorize (rereadOf a) = .ok a.reread := by
        simp only [categorize, rereadOf, Category.ofLabel?_label]
        rfl
      rw [List.map_cons, List.mapM_cons, ha, ih]
      rfl

/-- The text of printed frames. -/
theorem readList_listToJson (hL : layout.IsBlank) (hblank : ∀ c ∈ blank, Json.Scan.isSpace c = true)
    (as : List AnalyzedFrame) :
    readList (String.ofList (Json.chars layout 0 (AnalyzedFrame.listToJson as) ++ blank)) =
      Decoder.items decoder ⟨.streamed, 126⟩ (as.map fun a => .ofJson a.toJson) := by
  rw [readList, Json.readStreamed_chars _ hL (AnalyzedFrame.legible_listToJson as) hblank]
  exact Decoder.list_ofList decoder AnalyzedFrame.toJson as .streamed

/-- Printed frames with finite backgrounds are read. -/
theorem readList_of_finite (hL : layout.IsBlank) (hblank : ∀ c ∈ blank, Json.Scan.isSpace c = true)
    (hmeasured : ∀ a ∈ as, a.frame.IsMeasured)
    (hfinite : ∀ a ∈ as, a.frame.style.hasFiniteBackground = true) :
    readList (String.ofList (Json.chars layout 0 (AnalyzedFrame.listToJson as) ++ blank)) =
      .ok (as.map rereadOf) := by
  rw [readList_listToJson hL hblank]
  exact Decoder.items_eq_ok fun a ha => decoder_toJson_of_finite 123 (hmeasured a ha) (hfinite a ha)

/-- If any background is not finite, the printed frames are not read. -/
theorem readList_of_not_finite (hL : layout.IsBlank)
    (hblank : ∀ c ∈ blank, Json.Scan.isSpace c = true)
    (hmeasured : ∀ a ∈ as, a.frame.IsMeasured)
    (hbad : ∃ a ∈ as, a.frame.style.hasFiniteBackground = false) :
    readList (String.ofList (Json.chars layout 0 (AnalyzedFrame.listToJson as) ++ blank)) =
      .error .nullChannel := by
  rw [readList_listToJson hL hblank]
  refine Decoder.items_eq_error (fun a ha => ?_) ?_
  · cases hfinite : a.frame.style.hasFiniteBackground with
    | false => exact .inr (decoder_toJson_of_not_finite 123 (hmeasured a ha) hfinite)
    | true => exact .inl ⟨_, decoder_toJson_of_finite 123 (hmeasured a ha) hfinite⟩
  · obtain ⟨a, ha, hfinite⟩ := hbad
    exact ⟨a, ha, decoder_toJson_of_not_finite 123 (hmeasured a ha) hfinite⟩

end LabeledFrame
end DesignPages
