import DesignPages.Proofs.Generation

/-!
# The order of a page

This module says which of several components with one name is reported, and where the components of
a page stand: the first navbar in front, the first footer at the end, and all others in between as
they were given.  A page that was generated holds one footer at most, so that putting its components
together once more gives the same page.
-/

namespace DesignPages
namespace Page

/-! ## The component that is reported -/

variable {seen : List String} {before after cs : List Component} {c : Component}

theorem exists_of_firstRepeated?_eq_some (h : firstRepeated? seen cs = some c) :
    ∃ before after, cs = before ++ c :: after ∧ (before.map Component.name).Nodup ∧
      (∀ d ∈ before, d.name ∉ seen) ∧ (c.name ∈ seen ∨ c.name ∈ before.map Component.name) := by
  induction cs generalizing seen with
  | nil => contradiction
  | cons x cs ih =>
      by_cases hseen : x.name ∈ seen
      · obtain rfl : x = c := by simpa [firstRepeated?, hseen] using h
        exact ⟨[], cs, rfl, List.nodup_nil, List.forall_mem_nil _, .inl hseen⟩
      · have hrest : firstRepeated? (x.name :: seen) cs = some c := by
          simpa [firstRepeated?, hseen] using h
        obtain ⟨before, after, rfl, hnodup, hnew, hc⟩ := ih hrest
        have hother : ∀ d ∈ before, d.name ≠ x.name ∧ d.name ∉ seen := by
          intro d hd
          simpa using hnew d hd
        refine ⟨x :: before, after, rfl, ?_, ?_, ?_⟩
        · rw [List.map_cons, List.nodup_cons]
          refine ⟨?_, hnodup⟩
          intro hmem
          obtain ⟨d, hd, hname⟩ := List.mem_map.mp hmem
          exact (hother d hd).1 hname
        · exact List.forall_mem_cons.mpr ⟨hseen, fun d hd => (hother d hd).2⟩
        · rw [List.mem_cons] at hc
          rw [List.map_cons, List.mem_cons]
          tauto

theorem firstRepeated?_append_cons (hnodup : (before.map Component.name).Nodup)
    (hnew : ∀ d ∈ before, d.name ∉ seen)
    (hc : c.name ∈ seen ∨ c.name ∈ before.map Component.name) :
    firstRepeated? seen (before ++ c :: after) = some c := by
  induction before generalizing seen with
  | nil =>
      have hseen : c.name ∈ seen := by simpa using hc
      simp [firstRepeated?, hseen]
  | cons d before ih =>
      obtain ⟨hd, hnew⟩ := List.forall_mem_cons.mp hnew
      rw [List.map_cons, List.nodup_cons] at hnodup
      have hrest : firstRepeated? (d.name :: seen) (before ++ c :: after) = some c := by
        apply ih hnodup.2
        · intro e he hseen
          rcases List.mem_cons.mp hseen with hname | hseen
          · exact hnodup.1 (List.mem_map.mpr ⟨e, he, hname⟩)
          · exact hnew e he hseen
        · rw [List.map_cons, List.mem_cons] at hc
          rw [List.mem_cons]
          tauto
      simpa [firstRepeated?, hd] using hrest

/-- The component that is reported comes right behind components that repeat no name, and its own
name occurs among theirs or among those seen before the list. -/
theorem firstRepeated?_eq_some_iff :
    firstRepeated? seen cs = some c ↔
      ∃ before after, cs = before ++ c :: after ∧ (before.map Component.name).Nodup ∧
        (∀ d ∈ before, d.name ∉ seen) ∧
        (c.name ∈ seen ∨ c.name ∈ before.map Component.name) := by
  constructor
  · exact exists_of_firstRepeated?_eq_some
  · rintro ⟨before, after, rfl, hnodup, hnew, hc⟩
    exact firstRepeated?_append_cons hnodup hnew hc

/-- The collision that is reported is the first one in the list. -/
theorem assemble_eq_error_iff (options : PageOptions) (cs : List Component) (e : NamingCollision) :
    assemble options cs = .error e ↔
      ∃ before c after, cs = before ++ c :: after ∧ (before.map Component.name).Nodup ∧
        c.name ∈ before.map Component.name ∧ e = ⟨c.name, c.id, c.category⟩ := by
  have hfirst (c : Component) : firstRepeated? [] cs = some c ↔ _ := firstRepeated?_eq_some_iff
  simp only [List.not_mem_nil, not_false_eq_true, implies_true, true_and, false_or] at hfirst
  cases hrepeated : firstRepeated? [] cs with
  | none =>
      have hok : assemble options cs = .ok ⟨order cs, sourceOf options (order cs)⟩ := by
        simp only [assemble, hrepeated]
      simp only [hok, reduceCtorEq, false_iff]
      rintro ⟨before, c, after, hcs, hnodup, hc, -⟩
      have hsome := (hfirst c).mpr ⟨before, after, hcs, hnodup, hc⟩
      rw [hrepeated] at hsome
      exact absurd hsome (by simp)
  | some c =>
      have herror : assemble options cs = .error ⟨c.name, c.id, c.category⟩ := by
        simp only [assemble, hrepeated]
      rw [herror, Except.error.injEq]
      constructor
      · rintro rfl
        obtain ⟨before, after, hcs, hnodup, hc⟩ := (hfirst c).mp hrepeated
        exact ⟨before, c, after, hcs, hnodup, hc, rfl⟩
      · rintro ⟨before, d, after, hcs, hnodup, hd, rfl⟩
        have hsome := (hfirst d).mpr ⟨before, after, hcs, hnodup, hd⟩
        obtain rfl : c = d := Option.some.inj (hrepeated.symm.trans hsome)
        rfl

/-- Putting components together fails exactly if two of them share a name. -/
theorem exists_assemble_eq_error_iff (options : PageOptions) (cs : List Component) :
    (∃ e, assemble options cs = .error e) ↔ ¬(cs.map Component.name).Nodup := by
  have hnone : firstRepeated? [] cs = none ↔ _ := firstRepeated?_eq_none_iff
  simp only [List.not_mem_nil, not_false_eq_true, implies_true, and_true] at hnone
  rw [← hnone]
  cases hrepeated : firstRepeated? [] cs <;> simp [assemble, hrepeated]

/-! ## The order of the components -/

/-- Whether a component is of a category. -/
def isOf (category : Category) (c : Component) : Bool :=
  c.category == category

theorem takeFirst_eq (category : Category) (cs : List Component) :
    takeFirst category cs = (cs.find? (isOf category), cs.eraseP (isOf category)) := by
  induction cs with
  | nil => rfl
  | cons c cs ih =>
      by_cases h : c.category = category
      · simp [takeFirst, isOf, h]
      · simp [takeFirst, isOf, h, ih]

/-- Taking out a component of another category does not change which one is the first. -/
theorem find?_eraseP_isOf {category other : Category} (h : category ≠ other)
    (cs : List Component) :
    (cs.eraseP (isOf category)).find? (isOf other) = cs.find? (isOf other) := by
  induction cs with
  | nil => rfl
  | cons c cs ih =>
      by_cases hc : c.category = category
      · simp [isOf, hc, h]
      · simp [isOf, hc, List.find?_cons, ih]

/-- The first navbar, what is left without it and the first footer, and the first footer. -/
theorem order_eq (cs : List Component) :
    order cs =
      (cs.find? (isOf .navbar)).toList ++
        (cs.eraseP (isOf .navbar)).eraseP (isOf .footer) ++
          (cs.find? (isOf .footer)).toList := by
  simp only [order, takeFirst_eq, find?_eraseP_isOf (show Category.navbar ≠ .footer by decide)]

/-- Behind the first footer there is none, so none is left without it. -/
theorem not_isOf_of_mem_eraseP {category : Category} {cs : List Component}
    (h : cs.Pairwise fun x y => ¬(isOf category x = true ∧ isOf category y = true))
    {x : Component} (hx : x ∈ cs.eraseP (isOf category)) : ¬isOf category x = true := by
  induction cs with
  | nil => simp at hx
  | cons c cs ih =>
      obtain ⟨hfirst, hrest⟩ := List.pairwise_cons.mp h
      by_cases hc : isOf category c = true
      · rw [List.eraseP_cons_of_pos hc] at hx
        exact fun hboth => hfirst x hx ⟨hc, hboth⟩
      · rw [List.eraseP_cons_of_neg hc, List.mem_cons] at hx
        rcases hx with rfl | hx
        · exact hc
        · exact ih hrest hx

/-- What stands in front of a list, if it is the first of its category, is taken out again. -/
theorem takeFirst_toList_append {category : Category} {first : Option Component}
    {rest : List Component} (hfirst : ∀ c ∈ first, isOf category c = true)
    (hrest : first = none → ∀ c ∈ rest, ¬isOf category c = true) :
    takeFirst category (first.toList ++ rest) = (first, rest) := by
  rw [takeFirst_eq]
  cases first with
  | none =>
      have hnone := hrest rfl
      rw [Option.toList_none, List.nil_append, List.find?_eq_none.mpr hnone,
        List.eraseP_of_forall_not hnone]
  | some c =>
      have hc : isOf category c = true := hfirst c rfl
      rw [Option.toList_some, List.singleton_append, List.find?_cons_of_pos hc,
        List.eraseP_cons_of_pos hc]

/-- What stands at the end of a list, if it is the only one of its category, is taken out again. -/
theorem takeFirst_append_toList {category : Category} {last : Option Component}
    {front : List Component} (hlast : ∀ c ∈ last, isOf category c = true)
    (hfront : ∀ c ∈ front, ¬isOf category c = true) :
    takeFirst category (front ++ last.toList) = (last, front) := by
  rw [takeFirst_eq, List.find?_append, List.find?_eq_none.mpr hfront, Option.none_or,
    List.eraseP_append_right _ hfront]
  have hrest : takeFirst category (last.toList ++ []) = (last, []) :=
    takeFirst_toList_append hlast (by simp)
  rw [List.append_nil, takeFirst_eq, Prod.mk.injEq] at hrest
  rw [hrest.1, hrest.2, List.append_nil]

/-- With one footer at most, bringing components into order a second time changes nothing. -/
theorem order_order {cs : List Component}
    (h : cs.Pairwise fun x y => ¬(isOf .footer x = true ∧ isOf .footer y = true)) :
    order (order cs) = order cs := by
  have hmem {x : Component} {category : Category}
      (hx : x ∈ cs.find? (isOf category)) : x ∈ cs := List.mem_of_find?_eq_some hx
  have hof {x : Component} {category : Category}
      (hx : x ∈ cs.find? (isOf category)) : isOf category x = true := List.find?_some hx
  have hmiddle {x : Component}
      (hx : x ∈ (cs.eraseP (isOf .navbar)).eraseP (isOf .footer)) : x ∈ cs :=
    (List.eraseP_sublist.trans List.eraseP_sublist).mem hx
  have hnavbar : takeFirst .navbar (order cs) =
      (cs.find? (isOf .navbar),
        (cs.eraseP (isOf .navbar)).eraseP (isOf .footer) ++
          (cs.find? (isOf .footer)).toList) := by
    rw [order_eq, List.append_assoc]
    refine takeFirst_toList_append (fun c hc => hof hc) fun hnone c hc => ?_
    rw [List.find?_eq_none] at hnone
    rcases List.mem_append.mp hc with hc | hc
    · exact hnone c (hmiddle hc)
    · exact hnone c (hmem (Option.mem_toList.mp hc))
  have hfooter : takeFirst .footer
      ((cs.eraseP (isOf .navbar)).eraseP (isOf .footer) ++ (cs.find? (isOf .footer)).toList) =
        (cs.find? (isOf .footer), (cs.eraseP (isOf .navbar)).eraseP (isOf .footer)) :=
    takeFirst_append_toList (fun c hc => hof hc) fun c hc =>
      not_isOf_of_mem_eraseP (h.sublist List.eraseP_sublist) hc
  conv_lhs => rw [order, hnavbar]
  simp only [hfooter]
  rw [order_eq]

end Page

/-! ## Pages that were generated -/

/-- A component of any category but the gallery is named by the label of its category. -/
theorem name_eq_label_of_mem_selection {frames : List AnalyzedFrame} {x : Component}
    (h : x ∈ selection frames) (hgallery : x.category ≠ .gallery) : x.name = x.category.label := by
  obtain ⟨⟨a, i⟩, -, hx⟩ := List.mem_filterMap.mp h
  split at hx
  · cases hx
    exact if_neg fun hboth => hgallery hboth.1
  · simp at hx

/-- No two selected components are footers. -/
theorem selection_footer_pairwise (frames : List AnalyzedFrame) :
    (selection frames).Pairwise fun x y =>
      ¬(Page.isOf .footer x = true ∧ Page.isOf .footer y = true) := by
  refine (selection_names_pairwise frames).imp_of_mem fun hx hy hne => ?_
  rintro ⟨hxfooter, hyfooter⟩
  rw [Page.isOf, beq_iff_eq] at hxfooter hyfooter
  apply hne
  rw [name_eq_label_of_mem_selection hx (by rw [hxfooter]; decide),
    name_eq_label_of_mem_selection hy (by rw [hyfooter]; decide), hxfooter, hyfooter]

namespace Page

/-- Components make no page exactly if two of them share a name, and the first one that repeats a
name is reported.  Otherwise the page holds them all, the first navbar in front, the first footer at
the end, and what is left of the list in between.  A page that was generated is the page of its own
components. -/
theorem assemble_collides_or_arranges :
    (∀ (options : PageOptions) (cs : List Component),
      ((∃ e, assemble options cs = .error e) ↔ ¬(cs.map Component.name).Nodup) ∧
      (∀ e, assemble options cs = .error e ↔
        ∃ before c after, cs = before ++ c :: after ∧ (before.map Component.name).Nodup ∧
          c.name ∈ before.map Component.name ∧ e = ⟨c.name, c.id, c.category⟩) ∧
      ((cs.map Component.name).Nodup → ∃ page, assemble options cs = .ok page ∧
        page.components.Perm cs ∧
        ∃ middle, page.components =
            (cs.find? (isOf .navbar)).toList ++ middle ++ (cs.find? (isOf .footer)).toList ∧
          middle = (cs.eraseP (isOf .navbar)).eraseP (isOf .footer) ∧ middle.Sublist cs)) ∧
    ∀ (options : Options) (frames : List AnalyzedFrame), ∃ c,
      Compilation.generate options frames = .ok c ∧
        assemble options.page c.page.components = .ok c.page := by
  constructor
  · intro options cs
    refine ⟨exists_assemble_eq_error_iff options cs, assemble_eq_error_iff options cs, ?_⟩
    intro hnodup
    exact ⟨_, assemble_of_nodup options hnodup, order_perm cs, _, order_eq cs, rfl,
      List.eraseP_sublist.trans List.eraseP_sublist⟩
  · intro options frames
    refine ⟨_, Compilation.generate_eq options frames, ?_⟩
    have hnodup : ((order (selection frames)).map Component.name).Nodup :=
      ((order_perm _).map Component.name).nodup_iff.mpr (Compilation.selection_names_nodup frames)
    rw [assemble_of_nodup options.page hnodup, order_order (selection_footer_pairwise frames)]

/-- Components with a footer in front and a navbar at the end. -/
def sampleComponents : List Component :=
  [⟨"1:1", "Foot", .footer, "Footer", "", []⟩, ⟨"1:2", "Plan", .card, "Card", "", []⟩,
    ⟨"1:3", "Menu", .navbar, "Navbar", "", []⟩]

/-- The sample changes its ends and keeps its middle. -/
theorem assemble_sampleComponents :
    (sampleComponents.map Component.name).Nodup ∧
      ∃ page, assemble .standard sampleComponents = .ok page ∧
        page.components.map Component.name = ["Navbar", "Card", "Footer"] := by
  have hnodup : (sampleComponents.map Component.name).Nodup := by decide
  obtain ⟨page, hpage, -, middle, hcomponents, rfl, -⟩ :=
    (assemble_collides_or_arranges.1 .standard sampleComponents).2.2 hnodup
  refine ⟨hnodup, page, hpage, ?_⟩
  rw [hcomponents]
  decide

end Page
end DesignPages
