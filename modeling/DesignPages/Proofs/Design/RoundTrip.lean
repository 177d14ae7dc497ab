import DesignPages.Design.Wire
import DesignPages.Proofs.Design.Replace
import DesignPages.Proofs.Export.Finite
import DesignPages.Proofs.Json.ReadBack

/-!
# Designs that are printed and read again

A design whose numbers are all finite can be printed and read again, as long as no more brackets stand
inside each other than a reader allows.  As with frames, everything comes back as it was but for the
numbers; the design is the same exactly if the text of each of them reads back.

A kind is printed as a name, or as an object with its name for the only key.  So the label of an
unknown kind may be the name of a known one.
-/

namespace DesignPages

open Json (Case Decoder Field Outline Record Setting)

/-! ## Numbers -/

namespace Json

namespace Decoder

theorem double_readsAs {x : Float} (hx : (Number.ofDouble x).isFinite = true) :
    double.ReadsAs (.ofDouble x) (rereadDouble x) where
  sound := ⟨0, legible_ofDouble 0 x⟩
  read s _ := double_ofDouble s hx

theorem single_readsAs {x : Float32} (hx : (Number.ofSingle x).isFinite = true) :
    single.ReadsAs (.ofSingle x) (rereadSingle x) where
  sound := ⟨0, legible_ofSingle 0 x⟩
  read s _ := (single_ofSingle s hx).1

theorem nullable_double_readsAs {x : Option Float}
    (h : ∀ y ∈ x, (Number.ofDouble y).isFinite = true) :
    double.nullable.ReadsAs (.ofOption .ofDouble x) (x.map rereadDouble) :=
  .nullable (fun y hy => double_readsAs (h y hy)) fun y hy => ofDouble_ne_null (h y hy)

end Decoder

theorem Case.unit_readsAs {α : Type} {cases : List (Case α)} {name : String} {a : α}
    (h : cases.find? (fun c => c.name == name) = some ⟨name, .unit a⟩) :
    (Case.decoder cases).ReadsAs (.str name) a where
  sound := sound_str name
  read s _ := Case.decoder_unit h s

end Json

/-- Whatever the label of an unknown kind is, it is read as a label. -/
theorem otherCase_readsAs {α : Type} {cases : List (Case α)} {make : String → α}
    (h : cases.find? (fun c => c.name == "Other") = some (otherCase make)) (label : String) :
    (Case.decoder cases).ReadsAs (.obj [("Other", .str label)]) (make label) :=
  Case.decoder_readsAs h ((Decoder.string_readsAs label).map make)

/-! ## Colors and boxes -/

theorem Color.record_readsAs {c : Color} (h : c.isFinite = true) :
    record.decoder.ReadsAs c.toJson c.reread :=
  .of_obj ⟨1, c.legible_toJson 0⟩ fun manner room _ => decoder_toJson_of_finite manner room h

theorem Box.record_readsAs {b : Box} (h : b.isFinite = true) :
    record.decoder.ReadsAs b.toJson b.reread :=
  .of_obj ⟨1, b.legible_toJson 0⟩ fun manner room _ => decoder_toJson manner room h

/-! ## Paints -/

theorem PaintKind.cases_readsAs (k : PaintKind) : (Case.decoder cases).ReadsAs k.toJson k := by
  cases k with
  | other label => exact otherCase_readsAs rfl label
  | _ => exact Case.unit_readsAs rfl

namespace Paint

/-- Whether the channels and the opacity of a paint are numbers. -/
def isFinite (p : Paint) : Bool :=
  p.color.all Color.isFinite && p.opacity.all fun x => (Number.ofSingle x).isFinite

/-- The paint that is read from the text of a paint. -/
def reread (p : Paint) : Paint :=
  { p with color := p.color.map Color.reread, opacity := p.opacity.map Json.rereadSingle }

/-- The text of every channel and of the opacity reads back. -/
structure NumbersReadBack (p : Paint) : Prop where
  color : ∀ c ∈ p.color, c.ChannelsReadBack
  opacity : ∀ x ∈ p.opacity, Json.ReadsBack Decoder.single .ofSingle x

variable {p : Paint}

theorem record_readsAs (h : p.isFinite = true) : record.decoder.ReadsAs p.toJson p.reread := by
  rw [isFinite, Bool.and_eq_true, Option.all_eq_true, Option.all_eq_true] at h
  have hcolor : (Decoder.nullable Color.record.decoder).ReadsAs (.ofOption Color.toJson p.color)
      (p.color.map Color.reread) :=
    .nullable (fun c hc => Color.record_readsAs (h.1 c hc)) fun _ _ => by simp [Color.toJson]
  have hopacity : (Decoder.nullable Decoder.single).ReadsAs (.ofOption .ofSingle p.opacity)
      (p.opacity.map Json.rereadSingle) :=
    .nullable (fun x hx => Decoder.single_readsAs (h.2 x hx)) fun x hx =>
      Json.ofSingle_ne_null (h.2 x hx)
  have hfields : Record.FieldsRead record.fields _ record.blank _ :=
    .cons (.of p.kind.cases_readsAs) <| .cons (.of hcolor) <| .cons (.of hopacity) (.nil _)
  -- The paint that the fields make is written out first, since comparing it as it stands would
  -- evaluate the channels.
  dsimp only at hfields
  exact record.decoder_readsAs (by decide) hfields rfl

theorem reread_eq_self_iff (h : p.isFinite = true) : p.reread = p ↔ p.NumbersReadBack := by
  rw [isFinite, Bool.and_eq_true, Option.all_eq_true, Option.all_eq_true] at h
  have hall : p.reread = p ↔
      p.color.map Color.reread = p.color ∧ p.opacity.map Json.rereadSingle = p.opacity := by
    obtain ⟨kind, color, opacity⟩ := p
    simp [reread]
  rw [hall, map_option_eq_self_iff fun c hc => Color.reread_eq_self_iff (h.1 c hc),
    map_option_eq_self_iff fun x hx => Json.rereadSingle_eq_self_iff (h.2 x hx)]
  exact ⟨fun hback => ⟨hback.1, hback.2⟩, fun hback => ⟨hback.color, hback.opacity⟩⟩

end Paint

/-! ## Effects and font metrics -/

theorem EffectKind.cases_readsAs (k : EffectKind) : (Case.decoder cases).ReadsAs k.toJson k := by
  cases k with
  | other label => exact otherCase_readsAs rfl label
  | _ => exact Case.unit_readsAs rfl

namespace Effect

/-- Whether the radius of an effect is a number. -/
def isFinite (e : Effect) : Bool :=
  e.radius.all fun x => (Number.ofDouble x).isFinite

/-- The effect that is read from the text of an effect. -/
def reread (e : Effect) : Effect :=
  { e with radius := e.radius.map Json.rereadDouble }

/-- The text of the radius reads back. -/
def NumbersReadBack (e : Effect) : Prop :=
  ∀ x ∈ e.radius, Json.ReadsBack Decoder.double .ofDouble x

variable {e : Effect}

theorem record_readsAs (h : e.isFinite = true) : record.decoder.ReadsAs e.toJson e.reread := by
  rw [isFinite, Option.all_eq_true] at h
  have hfields : Record.FieldsRead record.fields _ record.blank _ :=
    .cons (.of e.kind.cases_readsAs) <| .cons (.of (Decoder.nullable_double_readsAs h)) (.nil _)
  dsimp only at hfields
  exact record.decoder_readsAs (by decide) hfields rfl

theorem reread_eq_self_iff (h : e.isFinite = true) : e.reread = e ↔ e.NumbersReadBack := by
  rw [isFinite, Option.all_eq_true] at h
  have hall : e.reread = e ↔ e.radius.map Json.rereadDouble = e.radius := by
    obtain ⟨kind, radius⟩ := e
    simp [reread]
  rw [hall, map_option_eq_self_iff fun x hx => Json.rereadDouble_eq_self_iff (h x hx),
    NumbersReadBack]

end Effect

namespace TextStyle

/-- Whether the font metrics are numbers. -/
def isFinite (t : TextStyle) : Bool :=
  (t.fontSize.all fun x => (Number.ofDouble x).isFinite) &&
    t.fontWeight.all fun x => (Number.ofDouble x).isFinite

/-- The metrics that are read from the text of metrics. -/
def reread (t : TextStyle) : TextStyle :=
  ⟨t.fontSize.map Json.rereadDouble, t.fontWeight.map Json.rereadDouble⟩

/-- The texts of both metrics read back. -/
structure NumbersReadBack (t : TextStyle) : Prop where
  fontSize : ∀ x ∈ t.fontSize, Json.ReadsBack Decoder.double .ofDouble x
  fontWeight : ∀ x ∈ t.fontWeight, Json.ReadsBack Decoder.double .ofDouble x

variable {t : TextStyle}

theorem record_readsAs (h : t.isFinite = true) : record.decoder.ReadsAs t.toJson t.reread := by
  rw [isFinite, Bool.and_eq_true, Option.all_eq_true, Option.all_eq_true] at h
  have hfields : Record.FieldsRead record.fields _ record.blank _ :=
    .cons (.of (Decoder.nullable_double_readsAs h.1)) <|
    .cons (.of (Decoder.nullable_double_readsAs h.2)) (.nil _)
  dsimp only at hfields
  exact record.decoder_readsAs (by decide) hfields rfl

theorem reread_eq_self_iff (h : t.isFinite = true) : t.reread = t ↔ t.NumbersReadBack := by
  rw [isFinite, Bool.and_eq_true, Option.all_eq_true, Option.all_eq_true] at h
  have hall : t.reread = t ↔ t.fontSize.map Json.rereadDouble = t.fontSize ∧
      t.fontWeight.map Json.rereadDouble = t.fontWeight := by
    cases t
    exact Eq.to_iff (mk.injEq ..)
  rw [hall, map_option_eq_self_iff fun x hx => Json.rereadDouble_eq_self_iff (h.1 x hx),
    map_option_eq_self_iff fun x hx => Json.rereadDouble_eq_self_iff (h.2 x hx)]
  exact ⟨fun hback => ⟨hback.1, hback.2⟩, fun hback => ⟨hback.fontSize, hback.fontWeight⟩⟩

end TextStyle

/-! ## Layers -/

theorem LayerKind.cases_readsAs (k : LayerKind) : (Case.decoder cases).ReadsAs k.toJson k := by
  cases k with
  | text characters =>
      have hcharacters : (Decoder.nullable Decoder.string).ReadsAs (.ofOption .str characters)
          (characters.map id) :=
        .nullable (fun s _ => Decoder.string_readsAs s) fun _ _ => by simp
      rw [Option.map_id, id] at hcharacters
      have hrecord := charactersRecord.decoder_readsAs (by decide)
        (.cons (.of hcharacters) (.nil _)) rfl
      exact Case.decoder_readsAs rfl (hrecord.map text)
  | other label => exact otherCase_readsAs rfl label
  | _ => exact Case.unit_readsAs rfl

namespace Layer

/-- Whether every number of a layer is finite. -/
def isFinite (l : Layer) : Bool :=
  l.box.all Box.isFinite && l.fills.all Paint.isFinite && l.effects.all Effect.isFinite &&
    l.strokes.all Paint.isFinite && (l.strokeWeight.all fun x => (Number.ofDouble x).isFinite) &&
    l.textStyle.all TextStyle.isFinite

/-- The layer that is read from the text of a layer. -/
def reread (l : Layer) : Layer :=
  { l with
    box := l.box.map Box.reread
    fills := l.fills.map Paint.reread
    effects := l.effects.map Effect.reread
    strokes := l.strokes.map Paint.reread
    strokeWeight := l.strokeWeight.map Json.rereadDouble
    textStyle := l.textStyle.map TextStyle.reread }

/-- The text of every number of a layer reads back. -/
structure NumbersReadBack (l : Layer) : Prop where
  box : ∀ b ∈ l.box, b.NumbersReadBack
  fills : ∀ p ∈ l.fills, p.NumbersReadBack
  effects : ∀ e ∈ l.effects, e.NumbersReadBack
  strokes : ∀ p ∈ l.strokes, p.NumbersReadBack
  strokeWeight : ∀ x ∈ l.strokeWeight, Json.ReadsBack Decoder.double .ofDouble x
  textStyle : ∀ t ∈ l.textStyle, t.NumbersReadBack

theorem reread_eq_self_iff {l : Layer} (h : l.isFinite = true) :
    l.reread = l ↔ l.NumbersReadBack := by
  simp only [isFinite, Bool.and_eq_true, Option.all_eq_true, List.all_eq_true] at h
  obtain ⟨⟨⟨⟨⟨hbox, hfills⟩, heffects⟩, hstrokes⟩, hweight⟩, hstyle⟩ := h
  have hall : l.reread = l ↔ l.box.map Box.reread = l.box ∧ l.fills.map Paint.reread = l.fills ∧
      l.effects.map Effect.reread = l.effects ∧ l.strokes.map Paint.reread = l.strokes ∧
      l.strokeWeight.map Json.rereadDouble = l.strokeWeight ∧
      l.textStyle.map TextStyle.reread = l.textStyle := by
    obtain ⟨id, name, kind, box, fills, effects, strokes, strokeWeight, textStyle⟩ := l
    simp [reread]
  rw [hall, map_option_eq_self_iff fun b hb => Box.reread_eq_self_iff (hbox b hb),
    map_list_eq_self_iff fun p hp => Paint.reread_eq_self_iff (hfills p hp),
    map_list_eq_self_iff fun e he => Effect.reread_eq_self_iff (heffects e he),
    map_list_eq_self_iff fun p hp => Paint.reread_eq_self_iff (hstrokes p hp),
    map_option_eq_self_iff fun x hx => Json.rereadDouble_eq_self_iff (hweight x hx),
    map_option_eq_self_iff fun t ht => TextStyle.reread_eq_self_iff (hstyle t ht)]
  constructor
  · rintro ⟨hb, hf, he, hs, hw, ht⟩
    exact ⟨hb, hf, he, hs, hw, ht⟩
  · rintro ⟨hb, hf, he, hs, hw, ht⟩
    exact ⟨hb, hf, he, hs, hw, ht⟩

end Layer

/-! ## Designs -/

namespace Tree

variable {α : Type}

theorem forall_values_node {P : α → Prop} {a : α} {ts : List (Tree α)} :
    (∀ b ∈ (node a ts).values, P b) ↔ P a ∧ ∀ t ∈ ts, ∀ b ∈ t.values, P b := by
  simp only [values, subtrees, List.map_cons, List.forall_mem_cons, List.forall_mem_map,
    mem_subtreesAll]
  constructor
  · rintro ⟨ha, hts⟩
    exact ⟨ha, fun t ht u hu => hts u ⟨t, ht, hu⟩⟩
  · rintro ⟨ha, hts⟩
    refine ⟨ha, ?_⟩
    rintro u ⟨t, ht, hu⟩
    exact hts t ht u hu

mutual

/-- A tree stays the same exactly if every value does. -/
theorem map_eq_self_iff {f : α → α} : ∀ {t : Tree α}, t.map f = t ↔ ∀ a ∈ t.values, f a = a
  | node a ts => by
      rw [map, node.injEq, mapAll_eq_self_iff, forall_values_node]

theorem mapAll_eq_self_iff {f : α → α} :
    ∀ {ts : List (Tree α)}, mapAll f ts = ts ↔ ∀ t ∈ ts, ∀ a ∈ t.values, f a = a
  | [] => by simp [mapAll]
  | t :: ts => by
      rw [mapAll, List.cons.injEq, map_eq_self_iff, mapAll_eq_self_iff, List.forall_mem_cons]

end

end Tree

namespace Design

/-- Whether every number of a design is finite. -/
def isFinite (d : Design) : Bool :=
  d.values.all Layer.isFinite

/-- The design that is read from the text of a design. -/
def reread (d : Design) : Design :=
  d.map Layer.reread

/-- The text of every number of a design reads back. -/
def NumbersReadBack (d : Design) : Prop :=
  ∀ l ∈ d.values, l.NumbersReadBack

variable {d : Design}

theorem reread_eq_self_iff (h : d.isFinite = true) : d.reread = d ↔ d.NumbersReadBack := by
  rw [isFinite, List.all_eq_true] at h
  rw [reread, Tree.map_eq_self_iff]
  exact forall₂_congr fun l hl => Layer.reread_eq_self_iff (h l hl)

theorem toJsons_eq_map (ts : List Design) : toJsons ts = ts.map toJson := by
  induction ts with
  | nil => rfl
  | cons t ts ih => rw [toJsons, List.map_cons, ih]

theorem layerField_readsAs {α : Type} {name : String} {absence : Json.Absence} {d : Decoder α}
    {put : α → Layer → Layer} {v : Json} {a : α} (h : d.ReadsAs v a) :
    (layerField name absence d put).ReadsAs v fun t => .node (put a t.value) t.children :=
  .of h

theorem nodup_names (child : Decoder Design) : ((record child).fields.map Field.name).Nodup := by
  have hnames : (record child).fields.map Field.name =
      ["id", "name", "kind", "children", "bounding_box", "fills", "effects", "strokes",
        "stroke_weight", "text_style"] := rfl
  rw [hnames]
  decide

/-- A printed layer is read together with what lies below it. -/
theorem record_readsAs {child : Decoder Design} {l : Layer} {ts us : List Design}
    (hl : l.isFinite = true) (hts : child.list.ReadsAs (.ofList toJson ts) us) :
    (record child).decoder.ReadsAs (layerJson l (ts.map toJson)) (.node l.reread us) := by
  simp only [Layer.isFinite, Bool.and_eq_true, Option.all_eq_true, List.all_eq_true] at hl
  obtain ⟨⟨⟨⟨⟨hbox, hfills⟩, heffects⟩, hstrokes⟩, hweight⟩, hstyle⟩ := hl
  have hbox : (Decoder.nullable Box.record.decoder).ReadsAs (.ofOption Box.toJson l.box)
      (l.box.map Box.reread) :=
    .nullable (fun b hb => Box.record_readsAs (hbox b hb)) fun _ _ => by simp [Box.toJson]
  have hpaints {ps : List Paint} (hps : ∀ p ∈ ps, p.isFinite = true) :
      (Decoder.list Paint.record.decoder).ReadsAs (.ofList Paint.toJson ps) (ps.map Paint.reread) :=
    .list fun p hp => Paint.record_readsAs (hps p hp)
  have heffects : (Decoder.list Effect.record.decoder).ReadsAs (.ofList Effect.toJson l.effects)
      (l.effects.map Effect.reread) :=
    .list fun e he => Effect.record_readsAs (heffects e he)
  have hstyle : (Decoder.nullable TextStyle.record.decoder).ReadsAs
      (.ofOption TextStyle.toJson l.textStyle) (l.textStyle.map TextStyle.reread) :=
    .nullable (fun t ht => TextStyle.record_readsAs (hstyle t ht)) fun _ _ => by
      simp [TextStyle.toJson]
  have hfields : Record.FieldsRead (record child).fields _ (record child).blank _ :=
    .cons (layerField_readsAs (Decoder.string_readsAs l.id)) <|
    .cons (layerField_readsAs (Decoder.string_readsAs l.name)) <|
    .cons (layerField_readsAs l.kind.cases_readsAs) <|
    .cons (.of hts) <|
    .cons (layerField_readsAs hbox) <|
    .cons (layerField_readsAs (hpaints hfills)) <|
    .cons (layerField_readsAs heffects) <|
    .cons (layerField_readsAs (hpaints hstrokes)) <|
    .cons (layerField_readsAs (Decoder.nullable_double_readsAs hweight)) <|
    .cons (layerField_readsAs hstyle) (.nil _)
  dsimp only [Tree.value, Tree.children] at hfields
  exact (record child).decoder_readsAs (nodup_names child) hfields rfl

theorem depthItems_lt_depth (l : Layer) (vs : List Json) :
    Outline.depthItems (Outline.ofItems vs) + 1 < (Outline.ofJson (layerJson l vs)).depth := by
  simp only [layerJson, Outline.ofJson, Outline.ofMembers, Outline.depth, Outline.depthMembers]
  omega

mutual

/-- A printed design is read by the reader of every height that its brackets do not exceed. -/
theorem decoderBelow_readsAs : ∀ (t : Design) (height : ℕ), t.isFinite = true →
    (Outline.ofJson (toJson t)).depth ≤ height →
    (decoderBelow height).ReadsAs (toJson t) t.reread
  | .node l ts, height, hfinite, hdepth => by
      rw [isFinite, List.all_eq_true, Tree.forall_values_node] at hfinite
      rw [toJson, toJsons_eq_map] at hdepth ⊢
      -- The layer takes one bracket and the list of its children another one.
      have hlt := (depthItems_lt_depth l (ts.map toJson)).trans_le hdepth
      obtain ⟨height, rfl⟩ := Nat.exists_eq_add_of_lt (Nat.zero_lt_of_lt hlt)
      have hts := decoderBelow_readsAs_all ts (0 + height)
        (fun t ht => List.all_eq_true.mpr (hfinite.2 t ht)) (by omega)
      have hread := record_readsAs hfinite.1 (Decoder.ReadsAs.list hts)
      rw [reread, Tree.map, Tree.mapAll_eq_map]
      exact hread

theorem decoderBelow_readsAs_all : ∀ (ts : List Design) (height : ℕ),
    (∀ t ∈ ts, t.isFinite = true) →
    Outline.depthItems (Outline.ofItems (ts.map toJson)) ≤ height →
    ∀ t ∈ ts, (decoderBelow height).ReadsAs (toJson t) t.reread
  | [], _, _, _ => fun t ht => absurd ht List.not_mem_nil
  | t :: ts, height, hfinite, hdepth => by
      rw [List.map_cons, Outline.ofItems, Outline.depthItems] at hdepth
      rw [List.forall_mem_cons] at hfinite ⊢
      exact ⟨decoderBelow_readsAs t height hfinite.1 (by omega),
        decoderBelow_readsAs_all ts height hfinite.2 (by omega)⟩

end

theorem decoder_readsAs (h : d.isFinite = true) : decoder.ReadsAs (toJson d) d.reread where
  sound := (decoderBelow_readsAs d _ h le_rfl).sound
  read s hs := (decoderBelow_readsAs d (s.room + 1) h (Nat.le_succ_of_le hs)).read s hs

/-- A design with finite numbers and few enough brackets that is printed in either layout is read: as
the design with every number read from its text, and so as the same design exactly if these texts
read back. -/
theorem read_printed_iff {text : String} (hfinite : d.isFinite = true)
    (hdepth : (Outline.ofJson (toJson d)).depth ≤ Setting.depthLimit)
    (htext : text = (toJson d).compact ∨ text = (toJson d).pretty) :
    read text = .ok d.reread ∧ (read text = .ok d ↔ d.NumbersReadBack) := by
  obtain ⟨layout, hL, rfl⟩ : ∃ layout : Json.Layout, layout.IsBlank ∧
      text = String.ofList (Json.chars layout 0 (toJson d)) := by
    rcases htext with rfl | rfl
    · exact ⟨_, Json.Layout.compact_isBlank, rfl⟩
    · exact ⟨_, Json.Layout.pretty_isBlank, rfl⟩
  have hread := (decoder_readsAs hfinite).readStreamed hdepth hL
  refine ⟨hread, ?_⟩
  rw [read, hread, Except.ok.injEq, reread_eq_self_iff hfinite]

/-- A design with numbers of every kind, and with unknown kinds labelled like known ones. -/
def sampleDesign : Design :=
  .node
    { id := "0:\"1\\"
      name := "Tab\tand\u2028line\nbreak"
      kind := .frame
      box := some ⟨0.1, -0.0, 1e300, 5e-324⟩
      fills := [⟨.other "Solid", some ⟨0.1, 1, 1e-30, 2⟩, some 0.5⟩, .image]
      effects := [⟨.other "DropShadow", some 1.5⟩, ⟨.layerBlur, none⟩]
      strokes := [⟨.gradient, none, some 0.25⟩]
      strokeWeight := some 3
      textStyle := some ⟨some 16, none⟩ }
    [.node (.plain "1" "Empty" (.text none)) [],
     .node (.plain "2" "Group" (.other "Frame")) [.node (.text "3" "\x7b\"Text\":null\x7d") []]]

/-- The sample is read from both of its texts as it was. -/
theorem read_printed_sampleDesign :
    (sampleDesign.isFinite = true ∧
      (Outline.ofJson (toJson sampleDesign)).depth ≤ Setting.depthLimit ∧
      sampleDesign.NumbersReadBack) ∧
    read (toJson sampleDesign).compact = .ok sampleDesign ∧
    read (toJson sampleDesign).pretty = .ok sampleDesign := by
  have hfinite : sampleDesign.isFinite = true := by decide +kernel
  have hdepth : (Outline.ofJson (toJson sampleDesign)).depth ≤ Setting.depthLimit := by
    decide +kernel
  have hsame : ∀ l ∈ sampleDesign.values, l.reread = l := by decide +kernel
  have hback : sampleDesign.NumbersReadBack :=
    (reread_eq_self_iff hfinite).mp (Tree.map_eq_self_iff.mpr hsame)
  obtain ⟨-, hcompact⟩ := read_printed_iff hfinite hdepth (Or.inl rfl)
  obtain ⟨-, hpretty⟩ := read_printed_iff hfinite hdepth (Or.inr rfl)
  exact ⟨⟨hfinite, hdepth, hback⟩, hcompact.mpr hback, hpretty.mpr hback⟩

end Design
end DesignPages
