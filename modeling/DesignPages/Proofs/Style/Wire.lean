import DesignPages.Proofs.Json.Decode
import DesignPages.Proofs.Style.Channel
import DesignPages.Style.Wire

/-!
# Style tokens through their text

Style tokens that are printed and read again are the same up to their numbers: what comes back for a
number is what is worked out for its text, and that need not be this number.  The bytes of a channel
are the same in any case.  A channel that is infinite or NaN is printed as `null`, and then nothing is
read at all.
-/

namespace DesignPages

open Json (Decoder Fault Field Manner Setting)

/-! ## Options and lists that stay the same -/

section Same

variable {α : Type} {f : α → α} {P : α → Prop}

theorem map_option_eq_self_iff {x : Option α} (h : ∀ a ∈ x, (f a = a ↔ P a)) :
    x.map f = x ↔ ∀ a ∈ x, P a := by
  rw [← forall₂_congr h]
  cases x <;> simp

theorem map_list_eq_self_iff {xs : List α} (h : ∀ a ∈ xs, (f a = a ↔ P a)) :
    xs.map f = xs ↔ ∀ a ∈ xs, P a := by
  rw [← forall₂_congr h, ← List.map_inj_left, List.map_id']

end Same

/-! ## Numbers -/

namespace Json

/-- The double that is read from the text of a double. -/
def rereadDouble (x : Float) : Float :=
  reread Decoder.double ofDouble x

/-- The single that is read from the text of a single. -/
def rereadSingle (x : Float32) : Float32 :=
  reread Decoder.single ofSingle x

theorem legible_ofDouble (room : ℕ) (x : Float) : (ofDouble x).Legible room := by
  cases h : Number.ofDouble x with
  | nan => simp [ofDouble, Literal.ofDouble?, h, Literal.ofDatum?, Legible]
  | infinite negative => simp [ofDouble, Literal.ofDouble?, h, Literal.ofDatum?, Legible]
  | finite negative m q =>
      obtain ⟨l, y, hl, hwell, hnumber⟩ := Literal.ofDouble?_spec h
      simp [ofDouble, hl, Legible, hwell, hnumber]

theorem legible_ofSingle (room : ℕ) (x : Float32) : (ofSingle x).Legible room := by
  cases h : Number.ofSingle x with
  | nan => simp [ofSingle, Literal.ofSingle?, h, Literal.ofDatum?, Legible]
  | infinite negative => simp [ofSingle, Literal.ofSingle?, h, Literal.ofDatum?, Legible]
  | finite negative m q =>
      obtain ⟨l, n, hl, hwell, hnumber, -⟩ := Color.exists_reread h
      simp [ofSingle, hl, Legible, hwell, hnumber]

theorem legible_ofOption {α : Type} {write : α → Json} {room : ℕ}
    (h : ∀ a, (write a).Legible room) (x : Option α) : (ofOption write x).Legible room := by
  cases x with
  | none => simp [ofOption, Legible]
  | some a => exact h a

theorem ofDouble_ne_null {x : Float} (hx : (Number.ofDouble x).isFinite = true) :
    ofDouble x ≠ .null := by
  obtain ⟨negative, m, q, hx⟩ := Number.Datum.isFinite_iff.mp hx
  obtain ⟨l, y, hl, -⟩ := Literal.ofDouble?_spec hx
  simp [ofDouble, hl]

theorem ofSingle_ne_null {x : Float32} (hx : (Number.ofSingle x).isFinite = true) :
    ofSingle x ≠ .null := by
  obtain ⟨negative, m, q, hx⟩ := Number.Datum.isFinite_iff.mp hx
  obtain ⟨l, n, hl, -⟩ := Color.exists_reread hx
  simp [ofSingle, hl]

/-- The fault of a number that was printed as `null`. -/
def Fault.nullChannel : Fault :=
  .mismatch (.wrongType .null .single)

namespace Decoder

/-- A finite double is read in one way, whatever the setting. -/
theorem double_ofDouble (s : Setting) {x : Float} (hx : (Number.ofDouble x).isFinite = true) :
    double s (.ofJson (.ofDouble x)) = .ok (rereadDouble x) := by
  obtain ⟨negative, m, q, hfinite⟩ := Number.Datum.isFinite_iff.mp hx
  obtain ⟨l, y, hl, -, hnumber⟩ := Literal.ofDouble?_spec hfinite
  have hread (s : Setting) : double s (.ofJson (.ofDouble x)) = .ok y := by
    simp [ofDouble, hl, Outline.ofJson, double, hnumber, Number.toDouble]
  rw [hread, rereadDouble, reread_eq (legible_ofDouble 0 x) (hread _)]

/-- A finite single is read in one way, whatever the setting, and its byte is not changed. -/
theorem single_ofSingle (s : Setting) {x : Float32} (hx : (Number.ofSingle x).isFinite = true) :
    single s (.ofJson (.ofSingle x)) = .ok (rereadSingle x) ∧
      Color.channelByte (rereadSingle x) = Color.channelByte x := by
  obtain ⟨negative, m, q, hfinite⟩ := Number.Datum.isFinite_iff.mp hx
  obtain ⟨l, n, hl, -, hnumber, hbyte, -⟩ := Color.exists_reread hfinite
  have hread (s : Setting) : single s (.ofJson (.ofSingle x)) = .ok n.toSingle := by
    simp [ofSingle, hl, Outline.ofJson, single, hnumber]
  rw [hread, rereadSingle, reread_eq (legible_ofSingle 0 x) (hread _)]
  exact ⟨rfl, hbyte⟩

theorem single_ofSingle_of_not_finite (s : Setting) {x : Float32}
    (hx : (Number.ofSingle x).isFinite = false) :
    single s (.ofJson (.ofSingle x)) = .error .nullChannel := by
  cases h : Number.ofSingle x with
  | nan => simp [ofSingle, Literal.ofSingle?, h, Literal.ofDatum?]; rfl
  | infinite negative => simp [ofSingle, Literal.ofSingle?, h, Literal.ofDatum?]; rfl
  | finite negative m q => rw [h] at hx; exact absurd hx (by simp [Number.Datum.isFinite])

end Decoder

theorem rereadDouble_eq_self_iff {x : Float} (hx : (Number.ofDouble x).isFinite = true) :
    rereadDouble x = x ↔ ReadsBack Decoder.double ofDouble x :=
  reread_eq_self_iff (legible_ofDouble 0 x) (Decoder.double_ofDouble _ hx)

theorem rereadSingle_eq_self_iff {x : Float32} (hx : (Number.ofSingle x).isFinite = true) :
    rereadSingle x = x ↔ ReadsBack Decoder.single ofSingle x :=
  reread_eq_self_iff (legible_ofSingle 0 x) (Decoder.single_ofSingle _ hx).1

end Json

/-- A short text of a double reads back. -/
theorem Json.readsBack_of_isShort {x : Float} {l : Json.Literal}
    (hl : Json.Literal.ofDouble? x = some l) (h : l.IsShort) :
    Json.ReadsBack Decoder.double .ofDouble x := by
  refine Json.readStreamed_compact (Json.legible_ofDouble 0 x) ?_
  simp [Json.ofDouble, hl, Json.Outline.ofJson, Decoder.double, Json.Literal.number?_of_isShort hl h,
    Json.Number.toDouble]

/-! ## Colors -/

namespace Color

/-- Whether every channel is a number. -/
def isFinite (c : Color) : Bool :=
  (Number.ofSingle c.r).isFinite && (Number.ofSingle c.g).isFinite &&
    (Number.ofSingle c.b).isFinite && (Number.ofSingle c.a).isFinite

/-- The color that is read from the text of a color. -/
def reread (c : Color) : Color :=
  ⟨Json.rereadSingle c.r, Json.rereadSingle c.g, Json.rereadSingle c.b, Json.rereadSingle c.a⟩

/-- The text of every channel reads back as this channel. -/
structure ChannelsReadBack (c : Color) : Prop where
  r : Json.ReadsBack Decoder.single .ofSingle c.r
  g : Json.ReadsBack Decoder.single .ofSingle c.g
  b : Json.ReadsBack Decoder.single .ofSingle c.b
  a : Json.ReadsBack Decoder.single .ofSingle c.a

theorem legible_toJson (room : ℕ) (c : Color) : c.toJson.Legible (room + 1) := by
  simp [toJson, Json.Legible, Json.LegibleMembers, Json.legible_ofSingle]

variable (manner : Manner) (room : ℕ) {c : Color}

/-- A printed color is read channel by channel. -/
theorem decoder_toJson (c : Color) :
    record.decoder ⟨manner, room + 1⟩ (.ofJson c.toJson) = do
      let r ← Decoder.single ⟨manner, room⟩ (.ofJson (.ofSingle c.r))
      let g ← Decoder.single ⟨manner, room⟩ (.ofJson (.ofSingle c.g))
      let b ← Decoder.single ⟨manner, room⟩ (.ofJson (.ofSingle c.b))
      let a ← Decoder.single ⟨manner, room⟩ (.ofJson (.ofSingle c.a))
      return ⟨r, g, b, a⟩ := by
  have hnodup : (record.fields.map Field.name).Nodup := by decide
  refine (record.decoder_inOrder hnodup
    [.ofSingle c.r, .ofSingle c.g, .ofSingle c.b, .ofSingle c.a] rfl rfl manner room).trans ?_
  simp only [record, Json.Record.readFields, Field.of]
  cases Decoder.single ⟨manner, room⟩ (.ofJson (.ofSingle c.r)) with
  | error e => rfl
  | ok r =>
  cases Decoder.single ⟨manner, room⟩ (.ofJson (.ofSingle c.g)) with
  | error e => rfl
  | ok g =>
  cases Decoder.single ⟨manner, room⟩ (.ofJson (.ofSingle c.b)) with
  | error e => rfl
  | ok b =>
  cases Decoder.single ⟨manner, room⟩ (.ofJson (.ofSingle c.a)) <;> rfl

theorem isFinite_iff : c.isFinite = true ↔
    (Number.ofSingle c.r).isFinite = true ∧ (Number.ofSingle c.g).isFinite = true ∧
      (Number.ofSingle c.b).isFinite = true ∧ (Number.ofSingle c.a).isFinite = true := by
  simp only [isFinite, Bool.and_eq_true, and_assoc]

/-- A finite color is read. -/
theorem decoder_toJson_of_finite (h : c.isFinite = true) :
    record.decoder ⟨manner, room + 1⟩ (.ofJson c.toJson) = .ok c.reread := by
  obtain ⟨hr, hg, hb, ha⟩ := isFinite_iff.mp h
  rw [decoder_toJson, (Decoder.single_ofSingle _ hr).1, (Decoder.single_ofSingle _ hg).1,
    (Decoder.single_ofSingle _ hb).1, (Decoder.single_ofSingle _ ha).1]
  rfl

/-- The color that is read has the same bytes. -/
theorem toBytes_reread (h : c.isFinite = true) : c.reread.toBytes = c.toBytes := by
  obtain ⟨hr, hg, hb, ha⟩ := isFinite_iff.mp h
  have hbyte {x : Float32} (hx : (Number.ofSingle x).isFinite = true) :
      channelByte (Json.rereadSingle x) = channelByte x :=
    (Decoder.single_ofSingle ⟨.streamed, 0⟩ hx).2
  simp only [toBytes, reread, hbyte hr, hbyte hg, hbyte hb, hbyte ha]

theorem reread_eq_self_iff (h : c.isFinite = true) : c.reread = c ↔ c.ChannelsReadBack := by
  obtain ⟨hr, hg, hb, ha⟩ := isFinite_iff.mp h
  have hall : c.reread = c ↔ Json.rereadSingle c.r = c.r ∧ Json.rereadSingle c.g = c.g ∧
      Json.rereadSingle c.b = c.b ∧ Json.rereadSingle c.a = c.a := by
    cases c
    exact Eq.to_iff (mk.injEq ..)
  rw [hall, Json.rereadSingle_eq_self_iff hr, Json.rereadSingle_eq_self_iff hg,
    Json.rereadSingle_eq_self_iff hb, Json.rereadSingle_eq_self_iff ha]
  constructor
  · rintro ⟨hr, hg, hb, ha⟩
    exact ⟨hr, hg, hb, ha⟩
  · rintro ⟨hr, hg, hb, ha⟩
    exact ⟨hr, hg, hb, ha⟩

/-- A channel reads back if it is zero, or else at least `2 ^ (-13)` and at most one in size. -/
theorem readsBack_of_unit {x : Float32} {negative : Bool} {m : ℕ} {q : ℤ}
    (hx : Number.ofSingle x = .finite negative m q)
    (h : m = 0 ∨ (2 ^ (-13 : ℤ) ≤ (m : ℚ) * 2 ^ q ∧ (m : ℚ) * 2 ^ q ≤ 1)) :
    Json.ReadsBack Decoder.single .ofSingle x := by
  obtain ⟨l, n, hl, -, hnumber, -, hback⟩ := exists_reread hx
  refine Json.readStreamed_compact (Json.legible_ofSingle 0 x) ?_
  simp [Json.ofSingle, hl, Json.Outline.ofJson, Decoder.single, hnumber, hback h]

/-- A channel is read as a number, or there is none and this is the fault. -/
theorem single_cases (x : Float32) (s : Setting) :
    ((Number.ofSingle x).isFinite = true ∧ ∃ y, Decoder.single s (.ofJson (.ofSingle x)) = .ok y) ∨
      Decoder.single s (.ofJson (.ofSingle x)) = .error .nullChannel := by
  cases hx : (Number.ofSingle x).isFinite with
  | false => exact .inr (Decoder.single_ofSingle_of_not_finite s hx)
  | true => exact .inl ⟨rfl, _, (Decoder.single_ofSingle s hx).1⟩

/-- A color that is not finite is not read. -/
theorem decoder_toJson_of_not_finite {c : Color} (h : c.isFinite = false) :
    record.decoder ⟨manner, room + 1⟩ (.ofJson c.toJson) = .error .nullChannel := by
  rw [decoder_toJson]
  rcases single_cases c.r ⟨manner, room⟩ with ⟨hr, r, hrread⟩ | hr
  · rcases single_cases c.g ⟨manner, room⟩ with ⟨hg, g, hgread⟩ | hg
    · rcases single_cases c.b ⟨manner, room⟩ with ⟨hb, b, hbread⟩ | hb
      · have ha : (Number.ofSingle c.a).isFinite = false := by
          simpa [isFinite, hr, hg, hb] using h
        rw [hrread, hgread, hbread, Decoder.single_ofSingle_of_not_finite _ ha]
        rfl
      · rw [hrread, hgread, hb]
        rfl
    · rw [hrread, hg]
      rfl
  · rw [hr]
    rfl

end Color

/-! ## Sizes and weights of fonts -/

/-- The name of a case that carries nothing is read as this case. -/
theorem Json.Case.decoder_unit {α : Type} {cases : List (Json.Case α)} {name : String} {a : α}
    (h : cases.find? (fun c => c.name == name) = some ⟨name, .unit a⟩) (s : Setting) :
    Json.Case.decoder cases s (.ofJson (.str name)) = .ok a := by
  have hselect : Json.Case.select cases name = .ok ⟨name, .unit a⟩ := by
    simp only [Json.Case.select, h]
  obtain ⟨manner, room⟩ := s
  cases manner <;>
    simp [Json.Case.decoder, Json.Case.streamed, Json.Case.taken, Json.Outline.ofJson, hselect,
      Json.Case.alone, bind, Except.bind]

theorem FontSize.decoder_label (x : FontSize) (s : Setting) :
    Json.Case.decoder FontSize.cases s (.ofJson (.str x.label)) = .ok x :=
  Json.Case.decoder_unit (by cases x <;> rfl) s

theorem FontWeight.decoder_label (x : FontWeight) (s : Setting) :
    Json.Case.decoder FontWeight.cases s (.ofJson (.str x.label)) = .ok x :=
  Json.Case.decoder_unit (by cases x <;> rfl) s

/-! ## Style tokens -/

namespace StyleTokens

/-- Whether the width of the border is a number. -/
def hasFiniteBorder (s : StyleTokens) : Bool :=
  s.border.all fun x => (Number.ofDouble x).isFinite

/-- Whether every channel of the background is a number. -/
def hasFiniteBackground (s : StyleTokens) : Bool :=
  s.background.all Color.isFinite

/-- The tokens that are read from the text of tokens. -/
def reread (s : StyleTokens) : StyleTokens :=
  { s with background := s.background.map Color.reread, border := s.border.map Json.rereadDouble }

/-- The texts of the width of the border and of every channel of the background read back. -/
structure NumbersReadBack (s : StyleTokens) : Prop where
  background : ∀ c ∈ s.background, c.ChannelsReadBack
  border : ∀ x ∈ s.border, Json.ReadsBack Decoder.double .ofDouble x

theorem legible_toJson (room : ℕ) (s : StyleTokens) : s.toJson.Legible (room + 2) := by
  simp [toJson, Json.Legible, Json.LegibleMembers,
    Json.legible_ofOption (Color.legible_toJson room),
    Json.legible_ofOption (Json.legible_ofDouble (room + 1)),
    Json.legible_ofOption fun (x : FontSize) => show (Json.str x.label).Legible (room + 1) by
      simp [Json.Legible],
    Json.legible_ofOption fun (x : FontWeight) => show (Json.str x.label).Legible (room + 1) by
      simp [Json.Legible]]

variable (manner : Manner) (room : ℕ) {s : StyleTokens}

/-- Printed style tokens with a finite border are read as soon as their background is. -/
theorem decoder_toJson (hborder : s.hasFiniteBorder = true) :
    record.decoder ⟨manner, room + 2⟩ (.ofJson s.toJson) =
      (Decoder.nullable Color.record.decoder ⟨manner, room + 1⟩
        (.ofJson (.ofOption Color.toJson s.background))).map fun x =>
          { s with background := x, border := s.border.map Json.rereadDouble } := by
  have hnodup : (record.fields.map Field.name).Nodup := by decide
  rw [hasFiniteBorder, Option.all_eq_true] at hborder
  have hwidth := Decoder.nullable_ofOption_map Decoder.double ⟨manner, room + 1⟩ .ofDouble
    Json.rereadDouble (fun x hx => Json.ofDouble_ne_null (hborder x hx)) fun x hx =>
      Decoder.double_ofDouble _ (hborder x hx)
  have hsize := Decoder.nullable_ofOption_map (Json.Case.decoder FontSize.cases)
    ⟨manner, room + 1⟩ (fun x => .str x.label) id (x := s.fontSize) (fun _ _ => by simp)
    fun a _ => FontSize.decoder_label a _
  have hweight := Decoder.nullable_ofOption_map (Json.Case.decoder FontWeight.cases)
    ⟨manner, room + 1⟩ (fun x => .str x.label) id (x := s.fontWeight) (fun _ _ => by simp)
    fun a _ => FontWeight.decoder_label a _
  rw [Option.map_id, id] at hsize hweight
  refine (record.decoder_inOrder hnodup
    [.ofOption Color.toJson s.background, .bool s.elevated, .ofOption .ofDouble s.border,
      .ofOption (fun x => .str x.label) s.fontSize,
      .ofOption (fun x => .str x.label) s.fontWeight] rfl rfl manner (room + 1)).trans ?_
  simp only [record, Json.Record.readFields, Field.of, hwidth, hsize, hweight]
  cases Decoder.nullable Color.record.decoder ⟨manner, room + 1⟩
    (.ofJson (.ofOption Color.toJson s.background)) <;> rfl

/-- Style tokens with finite numbers are read. -/
theorem decoder_toJson_of_finite (hborder : s.hasFiniteBorder = true)
    (h : s.hasFiniteBackground = true) :
    record.decoder ⟨manner, room + 2⟩ (.ofJson s.toJson) = .ok s.reread := by
  rw [hasFiniteBackground, Option.all_eq_true] at h
  rw [decoder_toJson manner room hborder,
    Decoder.nullable_ofOption_map Color.record.decoder _ Color.toJson Color.reread
      (fun _ _ => by simp [Color.toJson]) fun c hc =>
        Color.decoder_toJson_of_finite manner room (h c hc)]
  rfl

/-- Style tokens with any other background are not read. -/
theorem decoder_toJson_of_not_finite (hborder : s.hasFiniteBorder = true)
    (h : s.hasFiniteBackground = false) :
    record.decoder ⟨manner, room + 2⟩ (.ofJson s.toJson) = .error .nullChannel := by
  rw [decoder_toJson manner room hborder,
    Decoder.nullable_ofOption _ _ Color.toJson fun _ => by simp [Color.toJson]]
  cases hb : s.background with
  | none => simp [hasFiniteBackground, hb] at h
  | some c =>
      have hc : c.isFinite = false := by simpa [hasFiniteBackground, hb] using h
      rw [Option.elim, Color.decoder_toJson_of_not_finite manner room hc]
      rfl

theorem reread_eq_self_iff (hborder : s.hasFiniteBorder = true) (h : s.hasFiniteBackground = true) :
    s.reread = s ↔ s.NumbersReadBack := by
  rw [hasFiniteBorder, Option.all_eq_true] at hborder
  rw [hasFiniteBackground, Option.all_eq_true] at h
  have hall : s.reread = s ↔
      s.background.map Color.reread = s.background ∧ s.border.map Json.rereadDouble = s.border := by
    obtain ⟨background, elevated, border, fontSize, fontWeight⟩ := s
    simp [reread]
  rw [hall, map_option_eq_self_iff fun c hc => Color.reread_eq_self_iff (h c hc),
    map_option_eq_self_iff fun x hx => Json.rereadDouble_eq_self_iff (hborder x hx)]
  exact ⟨fun hback => ⟨hback.1, hback.2⟩, fun hback => ⟨hback.background, hback.border⟩⟩

/-- The classes of the tokens that are read are the same exactly if that of the border is. -/
theorem classes_reread_eq_iff (h : s.hasFiniteBackground = true) :
    s.reread.classes = s.classes ↔
      ∀ x ∈ s.border, borderClass (Json.rereadDouble x) = borderClass x := by
  obtain ⟨background, elevated, border, fontSize, fontWeight⟩ := s
  rw [hasFiniteBackground, Option.all_eq_true] at h
  have hbackground : (background.map Color.reread).map backgroundClass =
      background.map backgroundClass := by
    cases background with
    | none => rfl
    | some c =>
        have hbytes := Color.toBytes_reread (h c rfl)
        simp [backgroundClass, Color.toHex, Color.hexChars, hbytes]
  cases elevated <;> cases border <;> simp [classes, reread, hbackground]

end StyleTokens
end DesignPages
