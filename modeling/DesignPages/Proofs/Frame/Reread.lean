import DesignPages.Proofs.Component.RootClass
import DesignPages.Proofs.Frame.Wire
import DesignPages.Proofs.Page.Independence
import Mathlib.Data.List.Nodup

/-!
# Pages of frames that were read again

Frames that were printed and read again play the same part as before: the same ones are selected, under
the same names.  Their components show nothing of a number but the bytes of a background, which do not
change, and the class of a border.  The page is therefore the same exactly if no class of a border
changes in a selected frame.
-/

namespace DesignPages

/-! ## Selections of frames that play the same part -/

theorem AnalyzedFrame.SamePart.isSkipped_iff {a b : AnalyzedFrame} (h : a.SamePart b) :
    a.IsSkipped ↔ b.IsSkipped := by
  rw [IsSkipped, IsSkipped, h.shouldSkip, h.hasChildFrames, h.texts]

section Selection

variable {f : AnalyzedFrame → AnalyzedFrame} (hf : ∀ a, (f a).SamePart a)
  (frames : List AnalyzedFrame) (i : ℕ) (a : AnalyzedFrame)

include hf

theorem isSelected_map_iff : IsSelected (frames.map f) i (f a) ↔ IsSelected frames i a := by
  simp only [IsSelected, ← List.map_take, List.forall_mem_map, (hf _).isSkipped_iff,
    (hf _).category]

theorem selectedName_map : selectedName (frames.map f) i (f a) = selectedName frames i a := by
  have hnumber : galleryNumber (frames.map f) i = galleryNumber frames i := by
    simp only [galleryNumber, ← List.map_take, List.countP_map, Function.comp_def,
      (hf _).isSkipped_iff, (hf _).category]
  rw [selectedName, selectedName, hnumber, (hf a).category]

/-- The selection from changed frames: what is selected is not changed. -/
theorem selection_map :
    selection (frames.map f) = frames.zipIdx.filterMap fun p =>
      if IsSelected frames p.2 p.1 then some (selectedComponent (frames.map f) p.2 (f p.1))
      else none := by
  rw [selection, List.zipIdx_map, List.filterMap_map]
  refine List.filterMap_congr fun p _ => ?_
  simp only [Function.comp_apply, Prod.map_fst, Prod.map_snd, id, isSelected_map_iff hf]

end Selection

theorem mem_selection_of_isSelected {frames : List AnalyzedFrame} {p : AnalyzedFrame × ℕ}
    (hp : p ∈ frames.zipIdx) (h : IsSelected frames p.2 p.1) :
    selectedComponent frames p.2 p.1 ∈ selection frames :=
  List.mem_filterMap.mpr ⟨p, hp, if_pos h⟩

/-! ## Frames that were read again -/

namespace AnalyzedFrame

theorem samePart_reread (a : AnalyzedFrame) : a.reread.SamePart a :=
  ⟨rfl, rfl, rfl, Iff.rfl⟩

/-- The class of the border is the same for the width that is read from its text. -/
def KeepsBorder (a : AnalyzedFrame) : Prop :=
  ∀ x ∈ a.frame.style.border,
    StyleTokens.borderClass (Json.rereadDouble x) = StyleTokens.borderClass x

instance (a : AnalyzedFrame) : Decidable a.KeepsBorder :=
  inferInstanceAs (Decidable (∀ x ∈ a.frame.style.border, _ = _))

/-- A border whose width reads back keeps its class. -/
theorem keepsBorder_of_readsBack {a : AnalyzedFrame}
    (h : ∀ x ∈ a.frame.style.border, Json.ReadsBack Json.Decoder.double .ofDouble x) :
    a.KeepsBorder := by
  intro x hx
  have hback := h x hx
  rw [Json.rereadDouble, Json.reread, hback]
  rfl

/-- The component of a frame that was read again is the same exactly if the class of its border is. -/
theorem selectedComponent_reread_eq_iff (frames : List AnalyzedFrame) (i : ℕ) {a : AnalyzedFrame}
    (h : a.frame.style.hasFiniteBackground = true) :
    selectedComponent (frames.map reread) i a.reread = selectedComponent frames i a ↔
      a.KeepsBorder := by
  have hname := selectedName_map samePart_reread frames i a
  have hsource : selectedComponent (frames.map reread) i a.reread = selectedComponent frames i a ↔
      Template.render a.category (selectedName frames i a) a.frame.texts a.frame.style.reread =
        Template.render a.category (selectedName frames i a) a.frame.texts a.frame.style := by
    rw [selectedComponent, hname]
    simp [selectedComponent, reread, Frame.reread]
  rw [hsource, Template.render_eq_iff, StyleTokens.classes_reread_eq_iff h, KeepsBorder]

end AnalyzedFrame

namespace Compilation

/-- No border of a selected frame changes its class. -/
def KeepsBorders (frames : List AnalyzedFrame) : Prop :=
  ∀ p ∈ frames.zipIdx, IsSelected frames p.2 p.1 → p.1.KeepsBorder

instance (frames : List AnalyzedFrame) : Decidable (KeepsBorders frames) :=
  inferInstanceAs (Decidable (∀ p ∈ frames.zipIdx, IsSelected frames p.2 p.1 → p.1.KeepsBorder))

variable {frames : List AnalyzedFrame}

theorem selection_reread_of_keepsBorders
    (hfinite : ∀ a ∈ frames, a.frame.style.hasFiniteBackground = true)
    (h : KeepsBorders frames) : selection (frames.map AnalyzedFrame.reread) = selection frames := by
  rw [selection_map AnalyzedFrame.samePart_reread, selection]
  refine List.filterMap_congr fun p hp => ?_
  split_ifs with hselected
  · have hfinite := hfinite p.1 (List.fst_mem_of_mem_zipIdx hp)
    rw [(AnalyzedFrame.selectedComponent_reread_eq_iff frames p.2 hfinite).mpr (h p hp hselected)]
  · rfl

/-- Pages tell components apart by their names: if the ordered selections are the same, then so is
the component of every selected frame. -/
theorem keepsBorders_of_order_eq
    (hfinite : ∀ a ∈ frames, a.frame.style.hasFiniteBackground = true)
    (h : Page.order (selection (frames.map AnalyzedFrame.reread)) =
      Page.order (selection frames)) : KeepsBorders frames := by
  intro p hp hselected
  have hpast := mem_selection_of_isSelected hp hselected
  have hnow : selectedComponent (frames.map AnalyzedFrame.reread) p.2 p.1.reread ∈
      selection frames := by
    rw [← (Page.order_perm _).mem_iff, ← h, (Page.order_perm _).mem_iff,
      selection_map AnalyzedFrame.samePart_reread, List.mem_filterMap]
    exact ⟨p, hp, if_pos hselected⟩
  have hname := selectedName_map AnalyzedFrame.samePart_reread frames p.2 p.1
  have hsame := List.inj_on_of_nodup_map (selection_names_nodup frames) hnow hpast hname
  exact (AnalyzedFrame.selectedComponent_reread_eq_iff frames p.2
    (hfinite p.1 (List.fst_mem_of_mem_zipIdx hp))).mp hsame

/-- From frames with finite backgrounds that were read again the same page is generated exactly if no
border of a selected frame changes its class.  Everything but the sources of the components is the
same in any case. -/
theorem generate_map_reread (options : Options)
    (hfinite : ∀ a ∈ frames, a.frame.style.hasFiniteBackground = true) :
    ∃ c d, generate options (frames.map AnalyzedFrame.reread) = .ok c ∧
      generate options frames = .ok d ∧ c.diagnostics = d.diagnostics ∧
      c.page.components.map Component.name = d.page.components.map Component.name ∧
      c.page.source = d.page.source ∧ (c = d ↔ KeepsBorders frames) := by
  have hsame : List.Forall₂ AnalyzedFrame.SamePart (frames.map AnalyzedFrame.reread) frames := by
    rw [List.forall₂_map_left_iff, List.forall₂_same]
    exact fun a _ => a.samePart_reread
  obtain ⟨c, d, hc, hd, hdiagnostics, hnames, hsource⟩ :=
    exists_generate_samePart (Eq.refl options.page) hsame
  refine ⟨c, d, hc, hd, hdiagnostics, hnames, hsource, ?_⟩
  rw [generate_eq, Except.ok.injEq] at hc hd
  constructor
  · rintro rfl
    rw [← hd] at hc
    exact keepsBorders_of_order_eq hfinite (congrArg (fun c => c.page.components) hc)
  · intro h
    rw [selection_reread_of_keepsBorders hfinite h] at hc
    have hledger := (Ledger.admitFrames_samePart hsame .empty).2
    rw [← hc, ← hd, hledger]

end Compilation
end DesignPages
