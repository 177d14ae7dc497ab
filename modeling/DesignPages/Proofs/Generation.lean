import DesignPages.Proofs.Frame.Naming
import DesignPages.Proofs.Page.Assembly

/-!
# Generating pages

Generating a page from analyzed frames always succeeds.  Its components are the selected ones, and
their names are fit for the imports of the page and for the files of the components.
-/

namespace DesignPages
namespace Compilation

theorem selection_names_nodup (frames : List AnalyzedFrame) :
    ((selection frames).map Component.name).Nodup := by
  rw [List.nodup_iff_pairwise_ne, List.pairwise_map]
  exact (selection_names_pairwise frames).imp fun hne hname => hne (by rw [hname])

/-- The page that is generated: the selected components in the order of the page, and the ledger's
account of all frames. -/
theorem generate_eq (options : Options) (frames : List AnalyzedFrame) :
    generate options frames =
      .ok ⟨⟨Page.order (selection frames),
            Page.sourceOf options.page (Page.order (selection frames))⟩,
          (Ledger.empty.admitFrames frames).2.diagnostics⟩ := by
  have hpage := Page.assemble_of_nodup options.page (selection_names_nodup frames)
  simp only [generate, admitFrames_empty, hpage]
  rfl

/-- Generating a page succeeds, and its components are exactly those of the selected frames. -/
theorem generate_components_perm_selection (options : Options) (frames : List AnalyzedFrame) :
    ∃ c, generate options frames = .ok c ∧ c.page.components.Perm (selection frames) :=
  ⟨_, generate_eq options frames, Page.order_perm _⟩

/-- Compiling an export can only fail while the export is read. -/
theorem ofExport_eq_error_iff (options : Options) (text : String) (e : CompileError) :
    ofExport options text = .error e ↔
      ∃ r, Export.File.read text = .error r ∧ e = .read r := by
  cases hread : Export.File.read text with
  | error r =>
      have hfail : ofExport options text = .error (.read r) := by
        simp [ofExport, hread, Except.mapError, bind, Except.bind]
      rw [hfail]
      simp [eq_comm]
  | ok file =>
      have hcompiled : ∃ c, ofExport options text = .ok c := by
        simp [ofExport, hread, ofDesign, generate_eq, Except.mapError, bind, Except.bind]
      obtain ⟨c, hc⟩ := hcompiled
      simp [hc]

theorem components_name_pairwise (frames : List AnalyzedFrame) :
    (Page.order (selection frames)).Pairwise fun x y => foldCase x.name ≠ foldCase y.name :=
  (selection_names_pairwise frames).perm (Page.order_perm _).symm fun h => h.symm

/-- No naming collision arises: every list of frames gives a page, so every design does, and an
export fails only where it cannot be read.  The names of the components differ even when case is
ignored, they are identifiers, and no component has the file of the page. -/
theorem generation_never_collides (options : Options) :
    (∀ frames, ∃ c, generate options frames = .ok c ∧
      (c.page.components.Pairwise fun x y =>
        Category.sameIgnoringCase x.name y.name = false) ∧
      ∀ x ∈ c.page.components, IsIdentifier x.name ∧
        Category.sameIgnoringCase x.fileName Page.fileName = false) ∧
    (∀ root, ∃ c, ofDesign options root = .ok c) ∧
    ∀ text e, ofExport options text = .error e ↔
      ∃ r, Export.File.read text = .error r ∧ e = .read r := by
  refine ⟨?_, ?_, ofExport_eq_error_iff options⟩
  · intro frames
    refine ⟨_, generate_eq options frames, ?_, ?_⟩
    · refine (components_name_pairwise frames).imp fun hne => ?_
      rw [← Bool.not_eq_true, sameIgnoringCase_iff]
      exact hne
    · intro x hx
      obtain ⟨number, hname⟩ :=
        exists_nameOf_of_mem_selection ((Page.order_perm _).mem_iff.mp hx)
      constructor
      · rw [hname]
        exact Ledger.nameOf_isIdentifier x.category number
      · rw [← Bool.not_eq_true, sameIgnoringCase_iff, Component.fileName, hname]
        exact Ledger.nameOf_append_ne_fileName x.category number
  · intro root
    exact ⟨_, generate_eq options (Design.analyze options root)⟩

end Compilation
end DesignPages
