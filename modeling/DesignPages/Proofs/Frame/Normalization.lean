import DesignPages.Proofs.Design.Replace
import DesignPages.Proofs.Frame.Texts

/-!
# Normal texts

The texts of a frame are lines, and a frame has none if and only if no text below it has a character
that is not blank.  A frame is marked to be skipped if it has none and another frame lies right below
it.

Collecting lines leaves a normal form.  If some texts of a design are replaced by their lines, joined by
line breaks of any kind, the same is extracted from it.
-/

namespace DesignPages

/-! ## Designs without words -/

theorem Layer.lines_eq_nil_iff {l : Layer} :
    l.lines = [] ↔ ∀ s, l.kind = .text (some s) → ∀ c ∈ s.toList, Text.isBlank c = true := by
  rw [lines, characters?]
  cases hkind : l.kind with
  | text characters =>
      cases characters with
      | none => simp
      | some s => simpa using textLines_eq_nil_iff
  | _ => simp

namespace Design

/-- No text of the design has a character that is not blank. -/
def IsWordless (d : Design) : Prop :=
  ∀ l ∈ d.values, ∀ s, l.kind = .text (some s) → ∀ c ∈ s.toList, Text.isBlank c = true

variable {d : Design}

theorem texts_eq_nil_iff : d.texts = [] ↔ d.IsWordless := by
  rw [texts, List.flatMap_eq_nil_iff]
  exact forall₂_congr fun l _ => Layer.lines_eq_nil_iff

theorem isContainer_facts_iff :
    d.facts.isContainer = true ↔ d.IsWordless ∧ ∃ c ∈ d.children, c.value.isFrame = true := by
  rw [Frame.isContainer, Bool.and_eq_true, List.isEmpty_iff, ← texts_eq_nil_iff, ← List.any_eq_true]
  rfl

end Design

/-! ## Texts joined again -/

/-- The characters that can stand between lines. -/
abbrev LineBreak := { c : Char // isLineBreak c = true }

namespace Layer

/-- The layer with its lines in place of its characters, if it is a text.  The lines are joined by a
line break. -/
def rejoin (b : LineBreak) (l : Layer) : Layer :=
  match l.kind with
  | .text _ => { l with kind := .text (some ((String.singleton b).intercalate l.lines)) }
  | _ => l

variable (b : LineBreak) (l : Layer)

/-- A layer that is joined again is the same but for the characters of a text. -/
theorem rejoin_cases :
    l.rejoin b = l ∨
      (∃ characters, l.kind = .text characters) ∧
        l.rejoin b = { l with kind := .text (some ((String.singleton b).intercalate l.lines)) } := by
  unfold rejoin
  cases hkind : l.kind with
  | text characters => exact .inr ⟨⟨characters, rfl⟩, rfl⟩
  | _ => exact .inl rfl

@[simp] theorem lines_rejoin : (l.rejoin b).lines = l.lines := by
  rcases l.rejoin_cases b with heq | ⟨⟨characters, hkind⟩, heq⟩
  · rw [heq]
  · have hlines : l.lines = textLines (characters.getD "") := by
      rw [lines, characters?, hkind]
      cases characters <;> rfl
    rw [heq, hlines]
    exact textLines_intercalate b.2 _

@[simp] theorem isFrame_rejoin : (l.rejoin b).isFrame = l.isFrame := by
  rcases l.rejoin_cases b with heq | ⟨⟨characters, hkind⟩, heq⟩
  · rw [heq]
  · simp [heq, isFrame, hkind]

/-- What else is extracted from a layer. -/
theorem facts_rejoin :
    (l.rejoin b).id = l.id ∧ (l.rejoin b).name = l.name ∧ (l.rejoin b).box = l.box ∧
      (l.rejoin b).tokens = l.tokens := by
  rcases l.rejoin_cases b with heq | ⟨-, heq⟩
  · simp [heq]
  · rw [heq]
    exact ⟨rfl, rfl, rfl, rfl⟩

/-- Of two breaks the last one stays. -/
theorem rejoin_rejoin (b' : LineBreak) : (l.rejoin b').rejoin b = l.rejoin b := by
  have hlines := l.lines_rejoin b'
  rcases l.rejoin_cases b' with heq | ⟨⟨characters, hkind⟩, heq⟩
  · rw [heq]
  · rw [heq] at hlines ⊢
    simp only [rejoin, hkind, hlines]

end Layer

namespace Design

/-- The design with its lines in place of the characters in some texts.  Each text may have a break of
its own between its lines. -/
def rejoin (breaks : Position → Option LineBreak) (d : Design) : Design :=
  d.mapAt fun p l => (breaks p).elim l fun b => l.rejoin b

variable (b : LineBreak) (d : Design)

theorem facts_map_rejoin : facts (d.map (Layer.rejoin b)) = d.facts := by
  have htexts : texts (d.map (Layer.rejoin b)) = d.texts := by
    simp only [texts, Tree.values_map, List.flatMap_map, Layer.lines_rejoin]
  have hchildren : hasChildFrames (d.map (Layer.rejoin b)) = d.hasChildFrames := by
    simp only [hasChildFrames, Tree.children_map, List.any_map, Function.comp_def, Tree.value_map,
      Layer.isFrame_rejoin]
  obtain ⟨hid, hname, hbox, htokens⟩ := d.value.facts_rejoin b
  simp only [facts, Tree.value_map, hid, hname, htexts, hchildren, hbox, htokens]

theorem extract_map_rejoin : extract (d.map (Layer.rejoin b)) = d.extract := by
  have hframe (t : Design) : (t.map (Layer.rejoin b)).value.isFrame = t.value.isFrame := by
    rw [Tree.value_map, Layer.isFrame_rejoin]
  simp only [extract, frames, Tree.subtrees_map, List.filter_map, Function.comp_def, hframe,
    List.map_map, facts_map_rejoin]

/-- Joining lines again changes nothing of what is extracted. -/
theorem extract_rejoin (breaks : Position → Option LineBreak) :
    (d.rejoin breaks).extract = d.extract := by
  let b : LineBreak := ⟨'\n', rfl⟩
  have hlayer (p : Position) (l : Layer) :
      Layer.rejoin b ((breaks p).elim l fun b' => l.rejoin b') = l.rejoin b := by
    cases breaks p with
    | none => rfl
    | some b' => exact l.rejoin_rejoin b b'
  calc (d.rejoin breaks).extract
      = extract ((d.rejoin breaks).map (Layer.rejoin b)) := (extract_map_rejoin b _).symm
    _ = extract (d.map (Layer.rejoin b)) := congrArg extract (Tree.map_mapAt hlayer d)
    _ = d.extract := extract_map_rejoin b d

/-! ## Analyzed frames -/

/-- What the analysis says about a frame of a design: its texts are lines, there are none exactly if
no text below the frame has a character that is not blank, and the frame is marked exactly if, besides,
another one lies right below it. -/
structure Describes (f : Design) (a : AnalyzedFrame) : Prop where
  frame : a.frame = f.facts
  isLine : ∀ t ∈ a.frame.texts, IsLine t.toList
  texts_eq_nil_iff : a.frame.texts = [] ↔ f.IsWordless
  shouldSkip_iff :
    a.shouldSkip = true ↔ f.IsWordless ∧ ∃ c ∈ f.children, c.value.isFrame = true

theorem describes_analyze (options : Options) (f : Design) :
    f.Describes (f.facts.analyze options) where
  frame := rfl
  isLine := fun _ ht => isLine_of_mem_texts ht
  texts_eq_nil_iff := texts_eq_nil_iff
  shouldSkip_iff := isContainer_facts_iff

/-- The analysis describes every frame of a design, and it says the same of a design whose texts are
replaced by their lines, joined by any line breaks. -/
theorem analyze_describes (options : Options) (d : Design) :
    List.Forall₂ Describes d.frames (Design.analyze options (some d)) ∧
      ∀ breaks, (d.rejoin breaks).extract = d.extract ∧
        Design.analyze options (some (d.rejoin breaks)) = Design.analyze options (some d) := by
  constructor
  · rw [Design.analyze, extract, List.map_map, List.forall₂_map_right_iff, List.forall₂_same]
    exact fun f _ => describes_analyze options f
  · intro breaks
    have hextract := d.extract_rejoin breaks
    refine ⟨hextract, ?_⟩
    rw [Design.analyze, Design.analyze, hextract]

/-- Lines that end in different ways are joined by carriage returns. -/
example : (rejoin (fun _ => some ⟨'\r', rfl⟩)
    (.node (.text "1" " Acme\r\n\u2028 Tools ") [])).values.map Layer.characters? =
      [some "Acme\rTools"] := by
  decide

end Design
end DesignPages
