import DesignPages.Component.Template
import DesignPages.Proofs.Json.StringLiteral
import DesignPages.Proofs.Markup.Skeleton
import DesignPages.Proofs.Text.Run

/-!
# The structure of components

The source of a component is a frontmatter of three lines and the markup behind it.  This module shows
that no text of a design reaches the structure of that markup: its skeleton, and with it the sequence
of characters that build elements and expressions, depends only on the category and on the number of
texts.
-/

namespace DesignPages

open Markup

/-! ## The markup behind the frontmatter -/

/-- What is left of a text behind its first line. -/
def afterLine (cs : List Char) : List Char :=
  (cs.dropWhile (· ≠ '\n')).drop 1

/-- What is left of the source of a component behind the three lines of its frontmatter. -/
def behindFrontmatter (cs : List Char) : List Char :=
  afterLine (afterLine (afterLine cs))

theorem afterLine_append {line : List Char} (h : '\n' ∉ line) (rest : List Char) :
    afterLine (line ++ '\n' :: rest) = rest := by
  have hline : ∀ c ∈ line, decide (c ≠ '\n') = true := by
    intro c hc
    exact decide_eq_true fun heq => h (heq ▸ hc)
  rw [afterLine, List.dropWhile_append_of_pos hline]
  rfl

theorem Markup.Element.lines_ne_nil (level : ℕ) (e : Element) : e.lines level ≠ [] := by
  cases e <;> simp [Element.lines]

namespace ComponentSource

theorem lineFeed_not_mem_defaultChars (d : Param × String) : '\n' ∉ defaultChars d := by
  have hname : '\n' ∉ d.1.name.toList := by
    cases d.1 <;> decide
  have hequals : '\n' ∉ " = ".toList := by decide
  intro h
  simp only [defaultChars, List.mem_append] at h
  rcases h with (h | h) | h
  · exact hname h
  · exact hequals h
  · exact Json.lineFeed_not_mem_stringLiteralChars d.2.toList h

theorem declaration_eq (ds : List (Param × String)) :
    declaration ds =
      "const \x7b ".toList ++ (", ".toList).intercalate (ds.map defaultChars) ++
        " \x7d = Astro.props;".toList := rfl

/-- The declarations stand on one line, whatever the defaults are. -/
theorem lineFeed_not_mem_declaration (ds : List (Param × String)) : '\n' ∉ declaration ds := by
  have hdefaults : '\n' ∉ (", ".toList).intercalate (ds.map defaultChars) := by
    apply Text.not_mem_intercalate (by decide)
    intro l hl
    obtain ⟨d, -, rfl⟩ := List.mem_map.mp hl
    exact lineFeed_not_mem_defaultChars d
  have hopen : '\n' ∉ "const \x7b ".toList := by decide
  have hclose : '\n' ∉ " \x7d = Astro.props;".toList := by decide
  intro h
  rw [declaration_eq, List.mem_append, List.mem_append] at h
  rcases h with (h | h) | h
  · exact hopen h
  · exact hdefaults h
  · exact hclose h

/-- A source is a frontmatter of three lines with the markup of its root element behind it. -/
theorem chars_eq (s : ComponentSource) :
    s.chars =
      fence ++ '\n' :: (declaration s.defaults ++ '\n' ::
        (fence ++ '\n' :: joinLines (s.root.lines 0))) := by
  have hroot := s.root.lines_ne_nil 0
  rw [chars, lines, List.cons_append, List.cons_append, List.cons_append, List.nil_append,
    joinLines_cons _ (by simp), joinLines_cons _ (by simp), joinLines_cons _ hroot]

/-- Behind its frontmatter a source holds the markup of its root element. -/
theorem behindFrontmatter_chars (s : ComponentSource) :
    behindFrontmatter s.chars = joinLines (s.root.lines 0) := by
  have hfence : '\n' ∉ fence := by decide
  rw [chars_eq, behindFrontmatter, afterLine_append hfence,
    afterLine_append (lineFeed_not_mem_declaration s.defaults), afterLine_append hfence]

end ComponentSource

/-! ## Skeletons of templates -/

namespace Template

theorem map_skeleton_eq {α : Type} {f g : α → Element} {xs ys : List α}
    (hfg : ∀ x y, (f x).skeleton = (g y).skeleton) (hlength : xs.length = ys.length) :
    (xs.map f).map Element.skeleton = (ys.map g).map Element.skeleton := by
  induction xs generalizing ys with
  | nil =>
      rw [List.length_nil] at hlength
      rw [List.length_eq_zero_iff.mp hlength.symm]
      rfl
  | cons x xs ih =>
      obtain ⟨y, ys, rfl⟩ := List.exists_cons_of_length_eq_add_one hlength.symm
      simp only [List.map_cons, hfg x y, ih (Nat.succ.inj hlength)]

variable {texts texts' : List String}

theorem navbarBody_skeleton (name name' : String) (h : texts.length = texts'.length) :
    (navbarBody name texts).map Element.skeleton =
      (navbarBody name' texts').map Element.skeleton := by
  have hempty : texts = [] ↔ texts' = [] := by
    rw [← List.length_eq_zero_iff, h, List.length_eq_zero_iff]
  apply map_skeleton_eq
  · intro s t
    rfl
  · simp only [hempty]
    split
    · rfl
    · exact h

theorem footerBody_skeleton (h : texts.length = texts'.length) :
    (footerBody texts).map Element.skeleton = (footerBody texts').map Element.skeleton := by
  have hlinks : (texts.take footerLinks).length = (texts'.take footerLinks).length := by
    simp [h]
  unfold footerBody
  generalize texts.take footerLinks = links at hlinks
  generalize texts'.take footerLinks = links' at hlinks
  cases links with
  | nil =>
      rw [List.length_eq_zero_iff.mp hlinks.symm]
  | cons t ts =>
      obtain ⟨t', ts', rfl⟩ := List.exists_cons_of_length_eq_add_one hlinks.symm
      have hmap := map_skeleton_eq (f := link "text-gray-400 hover:text-white")
        (g := link "text-gray-400 hover:text-white") (fun s t => rfl) hlinks
      simp only [List.map_append, List.map_cons, List.map_nil, Element.skeleton,
        skeletonOfAll_eq_map] at hmap ⊢
      rw [hmap]

theorem figures_skeleton (number number' : ℕ) {captions captions' : List String}
    (h : captions.length = captions'.length) :
    (figures number captions).map Element.skeleton =
      (figures number' captions').map Element.skeleton := by
  induction captions generalizing number number' captions' with
  | nil =>
      rw [List.length_nil] at h
      rw [List.length_eq_zero_iff.mp h.symm]
      rfl
  | cons c cs ih =>
      obtain ⟨c', cs', rfl⟩ := List.exists_cons_of_length_eq_add_one h.symm
      have hfigure : (figure number c).skeleton = (figure number' c').skeleton := rfl
      simp only [figures, List.map_cons, hfigure,
        ih (number + 1) (number' + 1) (Nat.succ.inj h)]

theorem galleryBody_skeleton (name name' : String) (h : texts.length = texts'.length) :
    (galleryBody name texts).map Element.skeleton =
      (galleryBody name' texts').map Element.skeleton := by
  have hempty : texts = [] ↔ texts' = [] := by
    rw [← List.length_eq_zero_iff, h, List.length_eq_zero_iff]
  have hcaptions :
      (if texts = [] then [name] else texts.take galleryImages).length =
        (if texts' = [] then [name'] else texts'.take galleryImages).length := by
    simp only [hempty]
    split
    · rfl
    · simp [h]
  have hfigures := figures_skeleton 1 1 hcaptions
  simp only [galleryBody, List.map_cons, List.map_nil, Element.skeleton, skeletonOfAll_eq_map,
    hfigures]

theorem paragraphs_skeleton (className fallback fallback' : String)
    (h : texts.length = texts'.length) :
    (paragraphs className fallback texts).map Element.skeleton =
      (paragraphs className fallback' texts').map Element.skeleton := by
  cases texts with
  | nil =>
      rw [List.length_nil] at h
      rw [List.length_eq_zero_iff.mp h.symm]
      rfl
  | cons t ts =>
      obtain ⟨t', ts', rfl⟩ := List.exists_cons_of_length_eq_add_one h.symm
      exact map_skeleton_eq (fun s t => rfl) h

theorem slice_length (first count : ℕ) (h : texts.length = texts'.length) :
    (slice texts first count).length = (slice texts' first count).length := by
  simp [slice, h]

/-- What stands inside the root element has a skeleton that only the category and the number of texts
decide. -/
theorem body_skeleton (c : Category) (name name' : String) (h : texts.length = texts'.length) :
    (body c name texts).map Element.skeleton = (body c name' texts').map Element.skeleton := by
  have hslice := slice_length 1 bodyParagraphs h
  have hparagraphs (className fallback : String) :=
    paragraphs_skeleton className fallback fallback hslice
  cases c with
  | navbar => exact navbarBody_skeleton name name' h
  | hero => rfl
  | footer => exact footerBody_skeleton h
  | gallery => exact galleryBody_skeleton name name' h
  | testimonial => rfl
  | newsletter => rfl
  | cta => rfl
  | card =>
      simp only [body, cardBody, List.map_append, List.map_cons, hparagraphs]
      rfl
  | aboutUs | blog | plainSection =>
      simp only [body, sectionBody, List.map_cons, hparagraphs]

theorem rootAttributes_skeleton (c : Category) (name name' : String) (style style' : StyleTokens) :
    (rootAttributes c name style).map Attribute.skeleton =
      (rootAttributes c name' style').map Attribute.skeleton := by
  simp only [rootAttributes, List.map_append]
  rfl

/-- The skeleton of a component depends only on its category and on the number of its texts. -/
theorem source_skeleton (c : Category) (name name' : String) (style style' : StyleTokens)
    (h : texts.length = texts'.length) :
    (source c name texts style).root.skeleton =
      (source c name' texts' style').root.skeleton := by
  simp only [source, Element.skeleton, skeletonOfAll_eq_map, body_skeleton c name name' h,
    rootAttributes_skeleton c name name' style style']

/-- No text, name or style changes the structure of a component.  Behind the frontmatter, the
components of two lists with the same number of texts have the same elements and expressions, and the
same sequence of brackets and braces. -/
theorem render_structure_eq (c : Category) (name name' : String) (style style' : StyleTokens)
    (h : texts.length = texts'.length) :
    structureOf (behindFrontmatter (render c name texts style).toList) =
        structureOf (behindFrontmatter (render c name' texts' style').toList) ∧
      (source c name texts style).root.skeleton =
        (source c name' texts' style').root.skeleton := by
  have hskeleton := source_skeleton c name name' style style' h
  refine ⟨?_, hskeleton⟩
  simp only [render, ComponentSource.text, String.toList_ofList,
    ComponentSource.behindFrontmatter_chars]
  exact structureOf_lines_congr 0 hskeleton

/-- A text that closes the element and opens a script leaves the structure of a card as it is. -/
theorem render_structure_eq_of_script :
    ["Plan", "</p><script>\x7balert(1)\x7d</script>"].length = ["", ""].length ∧
      structureOf (behindFrontmatter (render .card "Card"
          ["Plan", "</p><script>\x7balert(1)\x7d</script>"] .none).toList) =
        structureOf (behindFrontmatter (render .card "Card" ["", ""] .none).toList) := by
  have hlength : ["Plan", "</p><script>\x7balert(1)\x7d</script>"].length = ["", ""].length := by
    decide
  exact ⟨hlength, (render_structure_eq .card "Card" "Card" .none .none hlength).1⟩

end Template
end DesignPages
