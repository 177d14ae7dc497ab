import DesignPages.Proofs.Generation

/-!
# What a page depends on

The source of a page shows nothing of its components but their names, and the names come from what the
ledger looks at in the frames: the category, the mark, whether there is a frame right below, and
whether there is any text.  Frames that agree in this give the same page source and the same
diagnostics, whatever they contain.  In the other direction, the options of a page have no influence
on its components.

A component is projected to its face, which is what the page looks at; all steps from the frames to
the source of the page are followed on faces.
-/

namespace DesignPages

/-! ## Frames that play the same part -/

/-- Two frames agree in everything that decides about them. -/
structure AnalyzedFrame.SamePart (a b : AnalyzedFrame) : Prop where
  category : a.category = b.category
  shouldSkip : a.shouldSkip = b.shouldSkip
  hasChildFrames : a.frame.hasChildFrames = b.frame.hasChildFrames
  texts : a.frame.texts = [] ↔ b.frame.texts = []

/-- What a page looks at in a component: its category and its name. -/
def Component.face (c : Component) : Component where
  id := ""
  originalName := ""
  category := c.category
  name := c.name
  source := ""
  texts := []

theorem AnalyzedFrame.SamePart.judge_eq {a b : AnalyzedFrame} (h : a.SamePart b) (l : Ledger) :
    l.judge a = l.judge b := by
  have htexts : a.frame.texts.isEmpty = b.frame.texts.isEmpty := by
    rw [Bool.eq_iff_iff, List.isEmpty_iff, List.isEmpty_iff]
    exact h.texts
  simp only [Ledger.judge, Ledger.consider, Frame.isContainer, h.category, h.shouldSkip,
    h.hasChildFrames, htexts]

theorem AnalyzedFrame.SamePart.face_component {a b : AnalyzedFrame} (h : a.SamePart b)
    (name : String) : (a.component name).face = (b.component name).face := by
  simp only [Component.face, AnalyzedFrame.component, h.category]

/-- Frames that play the same part leave the same ledger and components with the same faces. -/
theorem Ledger.admitFrames_samePart {as bs : List AnalyzedFrame}
    (h : List.Forall₂ AnalyzedFrame.SamePart as bs) (l : Ledger) :
    (l.admitFrames as).1.map Component.face = (l.admitFrames bs).1.map Component.face ∧
      (l.admitFrames as).2 = (l.admitFrames bs).2 := by
  induction h generalizing l with
  | nil => exact ⟨rfl, rfl⟩
  | @cons a b as bs hab _ ih =>
      obtain ⟨hfaces, hledger⟩ := ih (l.judge b).2
      simp only [admitFrames, hab.judge_eq]
      cases (l.judge b).1 with
      | admitted name =>
          exact ⟨congrArg₂ List.cons (hab.face_component name) hfaces, hledger⟩
      | container => exact ⟨hfaces, hledger⟩
      | duplicate c => exact ⟨hfaces, hledger⟩

namespace Page

/-! ## From faces to the source of a page -/

theorem takeFirst_map_face (category : Category) (cs : List Component) :
    takeFirst category (cs.map Component.face) =
      ((takeFirst category cs).1.map Component.face,
        (takeFirst category cs).2.map Component.face) := by
  induction cs with
  | nil => rfl
  | cons c cs ih =>
      by_cases h : c.category = category
      · simp [takeFirst, Component.face, h]
      · have hface : ¬c.face.category = category := h
        simp only [List.map_cons, takeFirst, if_neg h, if_neg hface, ih]

/-- The order of components is the order of their faces. -/
theorem order_map_face (cs : List Component) :
    order (cs.map Component.face) = (order cs).map Component.face := by
  simp only [order, takeFirst_map_face, List.map_append, Option.toList_map]

/-- The source of a page is made from the faces of its components. -/
theorem sourceOf_map_face (options : PageOptions) (cs : List Component) :
    sourceOf options (cs.map Component.face) = sourceOf options cs := by
  have himports : (cs.map Component.face).map (importLine options.componentsDir) =
      cs.map (importLine options.componentsDir) := by
    rw [List.map_map]
    exact List.map_congr_left fun c _ => rfl
  have hbody : body (cs.map Component.face) = body cs := by
    rw [body, List.map_map]
    rfl
  simp only [sourceOf, lines, html, himports, hbody]

theorem map_name_map_face (cs : List Component) :
    (cs.map Component.face).map Component.name = cs.map Component.name := by
  rw [List.map_map]
  exact List.map_congr_left fun c _ => rfl

/-- Components with the same faces are put into the same order, and give the same source. -/
theorem order_of_faces {cs ds : List Component}
    (h : cs.map Component.face = ds.map Component.face) (options : PageOptions) :
    (order cs).map Component.name = (order ds).map Component.name ∧
      sourceOf options (order cs) = sourceOf options (order ds) := by
  have hfaces : (order cs).map Component.face = (order ds).map Component.face := by
    rw [← order_map_face, h, order_map_face]
  constructor
  · rw [← map_name_map_face, hfaces, map_name_map_face]
  · rw [← sourceOf_map_face, hfaces, sourceOf_map_face]

end Page

namespace Compilation

/-- Frames that play the same part give the same diagnostics, names and page source. -/
theorem exists_generate_samePart {options options' : Options} {as bs : List AnalyzedFrame}
    (hpage : options.page = options'.page) (h : List.Forall₂ AnalyzedFrame.SamePart as bs) :
    ∃ c d, generate options as = .ok c ∧ generate options' bs = .ok d ∧
      c.diagnostics = d.diagnostics ∧
      c.page.components.map Component.name = d.page.components.map Component.name ∧
      c.page.source = d.page.source := by
  obtain ⟨hfaces, hledger⟩ := Ledger.admitFrames_samePart h .empty
  rw [admitFrames_empty, admitFrames_empty] at hfaces
  obtain ⟨hnames, hsource⟩ := Page.order_of_faces hfaces options.page
  refine ⟨_, _, generate_eq options as, generate_eq options' bs, ?_, hnames, ?_⟩
  · exact congrArg Ledger.diagnostics hledger
  · rw [← hpage]
    exact hsource

/-- Frames that play the same part, one by one, give the same diagnostics, the same names in the order
of the page, and the same page source, whatever their ids, names, texts, boxes and styles are.  From
one list of frames the same components and diagnostics are generated under all options. -/
theorem generate_ignores_contents :
    (∀ (options options' : Options) (as bs : List AnalyzedFrame), options.page = options'.page →
      List.Forall₂ AnalyzedFrame.SamePart as bs →
      ∃ c d, generate options as = .ok c ∧ generate options' bs = .ok d ∧
        c.diagnostics = d.diagnostics ∧
        c.page.components.map Component.name = d.page.components.map Component.name ∧
        c.page.source = d.page.source) ∧
    ∀ (options options' : Options) (as : List AnalyzedFrame),
      ∃ c d, generate options as = .ok c ∧ generate options' as = .ok d ∧
        c.page.components = d.page.components ∧ c.diagnostics = d.diagnostics := by
  constructor
  · intro options options' as bs hpage h
    exact exists_generate_samePart hpage h
  · intro options options' as
    exact ⟨_, _, generate_eq options as, generate_eq options' as, rfl, rfl⟩

/-- Two galleries around a frame that only holds others together, with the given text in all places
that do not decide about them. -/
def framesWith (text : String) : List AnalyzedFrame :=
  [⟨⟨text, text, [text], false, none, ⟨none, false, none, none, none⟩⟩, .gallery, false⟩,
    ⟨⟨"", text, [], true, none, ⟨none, true, none, none, none⟩⟩, .footer, false⟩,
    ⟨⟨text, "", [text, text], true, none, ⟨none, false, none, none, none⟩⟩, .gallery, false⟩]

/-- A text that looks like the source of a page leaves no trace in it. -/
theorem generate_framesWith :
    List.Forall₂ AnalyzedFrame.SamePart (framesWith "Sea") (framesWith "---\nimport x;<Nav />") ∧
      ∃ c d, generate .standard (framesWith "Sea") = .ok c ∧
        generate .standard (framesWith "---\nimport x;<Nav />") = .ok d ∧
        c.page.source = d.page.source ∧ c.page.components ≠ d.page.components := by
  have hsame : List.Forall₂ AnalyzedFrame.SamePart (framesWith "Sea")
      (framesWith "---\nimport x;<Nav />") := by
    refine .cons ⟨rfl, rfl, rfl, ?_⟩ (.cons ⟨rfl, rfl, rfl, ?_⟩ (.cons ⟨rfl, rfl, rfl, ?_⟩ .nil))
    · simp
    · simp
    · simp
  obtain ⟨c, d, hc, hd, -, -, hsource⟩ :=
    generate_ignores_contents.1 .standard .standard _ _ rfl hsame
  refine ⟨hsame, c, d, hc, hd, hsource, ?_⟩
  rw [generate_eq, Except.ok.injEq] at hc hd
  rw [← hc, ← hd]
  decide +kernel

end Compilation
end DesignPages
