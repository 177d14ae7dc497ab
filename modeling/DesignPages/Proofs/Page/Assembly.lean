import DesignPages.Page
import Mathlib.Data.List.Perm.Basic

/-!
# Putting pages together

This module shows when the components of a page collide, and that bringing them into the order of the
page neither loses nor repeats any of them.
-/

namespace DesignPages
namespace Page

/-- No component repeats a name if the names are pairwise distinct and none of them occurs among the
names before the list. -/
theorem firstRepeated?_eq_none_iff {seen : List String} {cs : List Component} :
    firstRepeated? seen cs = none ↔
      (cs.map Component.name).Nodup ∧ ∀ c ∈ cs, c.name ∉ seen := by
  induction cs generalizing seen with
  | nil => simp [firstRepeated?]
  | cons c cs ih =>
      by_cases hseen : c.name ∈ seen
      · simp [firstRepeated?, hseen]
      · simp only [firstRepeated?, List.contains_iff_mem, hseen, if_false, ih,
          List.map_cons, List.nodup_cons, List.mem_cons, List.mem_map, not_or]
        constructor
        · rintro ⟨hnodup, hnew⟩
          refine ⟨⟨?_, hnodup⟩, ?_⟩
          · rintro ⟨d, hd, hname⟩
            exact (hnew d hd).1 hname
          · rintro d (rfl | hd)
            · exact hseen
            · exact (hnew d hd).2
        · rintro ⟨⟨hfirst, hnodup⟩, hnew⟩
          refine ⟨hnodup, fun d hd => ⟨?_, hnew d (Or.inr hd)⟩⟩
          exact fun hname => hfirst ⟨d, hd, hname⟩

/-- Putting components together succeeds if their names are pairwise distinct. -/
theorem assemble_of_nodup (options : PageOptions) {cs : List Component}
    (h : (cs.map Component.name).Nodup) :
    assemble options cs = .ok ⟨order cs, sourceOf options (order cs)⟩ := by
  have hnone : firstRepeated? [] cs = none :=
    firstRepeated?_eq_none_iff.mpr ⟨h, by simp⟩
  simp [assemble, hnone]

/-- Taking the first component of a category out of a list keeps all others. -/
theorem takeFirst_perm (category : Category) (cs : List Component) :
    ((takeFirst category cs).1.toList ++ (takeFirst category cs).2).Perm cs := by
  induction cs with
  | nil => simp [takeFirst]
  | cons c cs ih =>
      by_cases h : c.category = category
      · simp [takeFirst, h]
      · simp only [takeFirst, h, if_false]
        exact List.perm_middle.trans (ih.cons c)

theorem order_perm (cs : List Component) : (order cs).Perm cs := by
  have hnavbar := takeFirst_perm .navbar cs
  have hfooter := takeFirst_perm .footer (takeFirst .navbar cs).2
  calc
    order cs = (takeFirst .navbar cs).1.toList ++
        ((takeFirst .footer (takeFirst .navbar cs).2).2 ++
          (takeFirst .footer (takeFirst .navbar cs).2).1.toList) := by
      simp [order]
    List.Perm _ ((takeFirst .navbar cs).1.toList ++ (takeFirst .navbar cs).2) :=
      (List.perm_append_comm.trans hfooter).append_left _
    List.Perm _ cs := hnavbar

end Page
end DesignPages
