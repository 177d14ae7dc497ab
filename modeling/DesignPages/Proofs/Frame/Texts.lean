import DesignPages.Proofs.Frame.Lines
import DesignPages.Proofs.Frame.Naming

/-!
# Texts of analyzed frames

The texts of a frame are lines, as all that is collected from a design.  The name of a component is an
identifier.  Neither therefore holds a line feed.
-/

namespace DesignPages

theorem Design.isLine_of_mem_texts {d : Design} {t : String} (h : t ∈ d.texts) :
    IsLine t.toList := by
  obtain ⟨layer, -, h⟩ := List.mem_flatMap.mp h
  unfold Layer.lines at h
  split at h
  · exact isLine_of_mem_textLines h
  · exact absurd h List.not_mem_nil

theorem IsLine.lineFeed_not_mem {cs : List Char} (h : IsLine cs) : '\n' ∉ cs := fun hmem =>
  absurd (h.noBreak '\n' hmem) (by decide)

/-- Every text of an analyzed design is one line. -/
theorem Design.lineFeed_not_mem_of_mem_analyze {options : Options} {root : Option Design}
    {a : AnalyzedFrame} (ha : a ∈ Design.analyze options root) {t : String}
    (ht : t ∈ a.frame.texts) : '\n' ∉ t.toList := by
  cases root with
  | none => exact absurd ha List.not_mem_nil
  | some d =>
      obtain ⟨f, hf, rfl⟩ := List.mem_map.mp ha
      obtain ⟨t', -, rfl⟩ := List.mem_map.mp hf
      exact (Design.isLine_of_mem_texts ht).lineFeed_not_mem

/-- A selected component comes from one of the frames. -/
theorem exists_component_of_mem_selection {frames : List AnalyzedFrame} {x : Component}
    (h : x ∈ selection frames) : ∃ a ∈ frames, x = a.component x.name := by
  obtain ⟨⟨a, i⟩, hmem, hx⟩ := List.mem_filterMap.mp h
  split at hx
  · cases hx
    exact ⟨a, List.fst_mem_of_mem_zipIdx hmem, rfl⟩
  · contradiction

theorem IsIdentifier.isAlphanum_of_mem {s : String} (h : IsIdentifier s) :
    ∀ c ∈ s.toList, c.isAlphanum = true := by
  obtain ⟨c, cs, hs, hc, hcs⟩ := h
  have hfirst : c.isAlphanum = true := by simp [Char.isAlphanum, hc]
  rw [hs]
  exact List.forall_mem_cons.mpr ⟨hfirst, hcs⟩

theorem IsIdentifier.lineFeed_not_mem {s : String} (h : IsIdentifier s) : '\n' ∉ s.toList :=
  fun hmem => absurd (h.isAlphanum_of_mem '\n' hmem) (by decide)

end DesignPages
