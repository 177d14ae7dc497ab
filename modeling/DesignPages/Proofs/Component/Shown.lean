import DesignPages.Proofs.Component.Binding
import DesignPages.Proofs.Component.SelfContained
import DesignPages.Proofs.Markup.Content

/-!
# The texts that components show

The body of a component shows texts of its frame: a navigation bar all of them as links, a footer the
first six, a gallery one image for each of the first eight, and a card or a section the second to the
fourth as paragraphs.  This module describes the texts by their positions, and shows that they are
what reads back from the source, in the same order and with nothing between them.  The categories that
show their texts through parameters only have no text of the frame in their body.
-/

namespace DesignPages
namespace Template

open Markup

/-! ## Texts by position -/

/-- The captions of a gallery: the first eight texts, or the name if there is none. -/
def captions (name : String) (texts : List String) : List String :=
  if texts = [] then [name] else texts.take 8

/-- The paragraphs of a body: the second to the fourth text, or a fallback if there is none. -/
def shownParagraphs (fallback : String) (texts : List String) : List (String × String) :=
  (if texts.length ≤ 1 then [fallback] else [1, 2, 3].filterMap (texts[·]?)).map (Prod.mk "p")

/-- The texts that the body of a component shows, each with the name of the element around it. -/
def shown (c : Category) (name : String) (texts : List String) : List (String × String) :=
  match c with
  | .navbar => (if texts = [] then [name] else texts).map (Prod.mk "a")
  | .footer => (texts.take 6).map (Prod.mk "a")
  | .gallery => (captions name texts).map (Prod.mk "figcaption")
  | .card => shownParagraphs "This is a card component with some description text." texts
  | .plainSection => shownParagraphs "This is a section section with some content." texts
  | .aboutUs => shownParagraphs "This is a aboutus section with some content." texts
  | .blog => shownParagraphs "This is a blog section with some content." texts
  | .newsletter => [("button", "\n      Subscribe\n    ")]
  | .hero | .testimonial | .cta => []

/-- A figure with one image, whose number and text it shows. -/
def shownFigure (caption : String × ℕ) : Group where
  images :=
    [(some ("https://via.placeholder.com/150?text=Image+" ++ toString caption.2), some caption.1)]
  labels := [("figcaption", caption.1)]

/-- The paragraphs of a body are the texts at the second to the fourth position. -/
theorem slice_one_three (texts : List String) :
    slice texts 1 bodyParagraphs = [1, 2, 3].filterMap (texts[·]?) := by
  match texts with
  | [] | [_] | [_, _] | [_, _, _] => rfl
  | _ :: _ :: _ :: _ :: _ => rfl

/-! ## Reading sources -/

/-- The tree that the markup of a source forms. -/
def tree? (source : String) : Option (List Node) :=
  read (behindFrontmatter source.toList)

/-- The labels in the markup of a source. -/
def labels? (source : String) : Option (List (String × String)) :=
  (tree? source).map labelsIn

/-- The groups of one name in the markup of a source. -/
def groups? (tag source : String) : Option (List Group) :=
  (tree? source).map (groupsIn tag)

theorem tree?_render (c : Category) (name : String) (texts : List String) (style : StyleTokens) :
    tree? (render c name texts style) = some ((source c name texts style).root.nodes 0) := by
  rw [tree?, render, ComponentSource.text, String.toList_ofList,
    ComponentSource.behindFrontmatter_chars]
  exact Element.read_lines 0 _ readable_source

/-! ## Labels of bodies -/

section Labels

variable (level : ℕ) (className name : String) (texts : List String)

theorem labelsIn_link (text : String) :
    labelsIn ((link className text).nodes level) = [("a", text)] :=
  labelsIn_inline_text level "a" _ text

theorem labelsIn_ofText (tag text : String) :
    labelsIn ((Element.ofText tag className text).nodes level) = [(tag, text)] :=
  labelsIn_inline_text level tag _ text

/-- The text of a parameter is no label. -/
theorem labelsIn_ofParam (tag : String) (p : Param) :
    labelsIn ((Element.ofParam tag className p).nodes level) = [] :=
  labelsIn_inline_expression level tag _ (List.mem_singleton_self (Inline.expression (.param p)))

theorem labelsOfAll_map {α : Type} {f : α → Element} {g : α → String × String}
    (h : ∀ x, labelsIn ((f x).nodes level) = [g x]) (xs : List α) :
    labelsOfAll level (xs.map f) = xs.map g := by
  rw [labelsOfAll, List.flatMap_map, List.map_eq_flatMap]
  simp only [h]

theorem labelsOfAll_cons (e : Element) (es : List Element) :
    labelsOfAll level (e :: es) = labelsIn (e.nodes level) ++ labelsOfAll level es :=
  List.flatMap_cons

theorem labelsOfAll_append (es es' : List Element) :
    labelsOfAll level (es ++ es') = labelsOfAll level es ++ labelsOfAll level es' :=
  List.flatMap_append

/-- A body of paragraphs shows the second to the fourth text, or the fallback. -/
theorem labelsOfAll_paragraphs (fallback : String) :
    labelsOfAll level (paragraphs className fallback (slice texts 1 bodyParagraphs)) =
      shownParagraphs fallback texts := by
  have hnil : slice texts 1 bodyParagraphs = [] ↔ texts.length ≤ 1 := by
    rw [slice, List.take_eq_nil_iff, List.drop_eq_nil_iff]
    simp [bodyParagraphs]
  rw [shownParagraphs, ← slice_one_three]
  generalize slice texts 1 bodyParagraphs = shownTexts at hnil
  cases shownTexts with
  | nil =>
      rw [if_pos (hnil.mp rfl)]
      exact labelsOfAll_map level (labelsIn_ofText level className "p") [fallback]
  | cons t ts =>
      rw [if_neg fun hle => List.cons_ne_nil t ts (hnil.mpr hle)]
      exact labelsOfAll_map level (labelsIn_ofText level className "p") (t :: ts)

/-- The figures are numbered one after the other. -/
theorem figures_eq_map_zipIdx (number : ℕ) (captions : List String) :
    figures number captions = (captions.zipIdx number).map fun c => figure c.2 c.1 := by
  induction captions generalizing number with
  | nil => rfl
  | cons c cs ih => rw [figures, ih, List.zipIdx_cons, List.map_cons]

theorem labelsIn_figure (number : ℕ) (caption : String) :
    labelsIn ((figure number caption).nodes level) = [("figcaption", caption)] := by
  rw [figure, labelsIn_block _ _ _ rfl, labelsOfAll_cons, labelsIn_void, List.nil_append,
    labelsOfAll_cons, labelsIn_ofText]
  rfl

theorem labelsOfAll_figures (number : ℕ) (captions : List String) :
    labelsOfAll level (figures number captions) = captions.map (Prod.mk "figcaption") := by
  have hfigure (c : String × ℕ) :
      labelsIn ((figure c.2 c.1).nodes level) = [("figcaption", c.1)] :=
    labelsIn_figure level c.2 c.1
  rw [figures_eq_map_zipIdx, labelsOfAll_map level hfigure,
    ← Function.comp_def (Prod.mk "figcaption") Prod.fst, ← List.map_map, List.zipIdx_map_fst]

end Labels

/-- The block with the links of a footer. -/
def linkBlock (links : List String) : Element :=
  .block "div" [.text "class" "flex justify-center space-x-4 mb-4"]
    (links.map (link "text-gray-400 hover:text-white"))

/-- The block with the copyright line of a footer. -/
def copyrightBlock : Element :=
  .block "div" [.text "class" "text-center text-gray-400"]
    [.inline "p" []
      [.copyrightSign, .text " ", .expression .currentYear, .text " ",
       .expression (.param .copyright), .text ". All rights reserved."]]

theorem footerBody_eq (texts : List String) :
    footerBody texts =
      (if texts = [] then [] else [linkBlock (texts.take 6)]) ++ [copyrightBlock] := by
  cases texts <;> rfl

/-- The block with the images of a gallery. -/
def imageBlock (captions : List String) : Element :=
  .block "div" [.text "class" "grid grid-cols-2 md:grid-cols-4 gap-4"] (figures 1 captions)

theorem galleryBody_eq (name : String) (texts : List String) :
    galleryBody name texts =
      [.ofParam "h2" "font-bold text-xl mb-4" .title, imageBlock (captions name texts)] := rfl

variable (name : String) (texts : List String)

/-- What stands inside the root element shows the texts at the positions that belong to the
category. -/
theorem labelsOfAll_body (c : Category) :
    labelsOfAll 1 (body c name texts) = shown c name texts := by
  cases c with
  | navbar => exact labelsOfAll_map 1 (labelsIn_link 1 _) _
  | hero => exact (by decide +kernel : labelsOfAll 1 heroBody = [])
  | footer =>
      have hcopyright : labelsOfAll 1 [copyrightBlock] = [] := by decide +kernel
      rw [body, footerBody_eq, labelsOfAll_append, hcopyright, List.append_nil]
      cases texts with
      | nil => rfl
      | cons t ts =>
          rw [if_neg (List.cons_ne_nil t ts), labelsOfAll_cons, linkBlock,
            labelsIn_block _ _ _ rfl, labelsOfAll_map 2 (labelsIn_link 2 _)]
          exact List.append_nil _
  | gallery =>
      have htagged : (figures 1 (captions name texts)).any Element.isTagged = true := by
        cases texts <;> rfl
      rw [body, galleryBody_eq, labelsOfAll_cons, labelsIn_ofParam, List.nil_append,
        labelsOfAll_cons, imageBlock, labelsIn_block _ _ _ htagged, labelsOfAll_figures]
      exact List.append_nil _
  | testimonial => exact (by decide +kernel : labelsOfAll 1 testimonialBody = [])
  | newsletter =>
      exact (by decide +kernel :
        labelsOfAll 1 newsletterBody = [("button", "\n      Subscribe\n    ")])
  | cta => exact (by decide +kernel : labelsOfAll 1 ctaBody = [])
  | card =>
      rw [body, cardBody, List.cons_append, labelsOfAll_cons, labelsIn_ofParam, List.nil_append,
        labelsOfAll_append, labelsOfAll_paragraphs, labelsOfAll_cons, labelsIn_void]
      exact List.append_nil _
  | aboutUs | blog | plainSection =>
      rw [body, sectionBody, labelsOfAll_cons, labelsIn_ofParam, List.nil_append,
        labelsOfAll_paragraphs]
      rfl

/-! ## Groups of bodies -/

/-- A figure shows its image and its caption. -/
theorem groupsIn_figure (level number : ℕ) (caption : String) :
    groupsIn "figure" ((figure number caption).nodes level) = [shownFigure (caption, number)] := by
  have hlabels := labelsIn_figure level number caption
  rw [figure, labelsIn_block _ _ _ rfl] at hlabels
  rw [figure, groupsIn_block, if_pos rfl, hlabels, Element.ofText]
  simp only [List.flatMap_cons, List.flatMap_nil, List.append_nil, imagesIn_void,
    imagesIn_inline_of_ne, groupsIn_inline_of_ne, groupsIn_void_of_ne, ne_eq, String.reduceEq,
    not_false_eq_true]
  rfl

theorem groupsIn_linkBlock (links : List String) :
    groupsIn "div" ((linkBlock links).nodes 1) = [⟨[], links.map (Prod.mk "a")⟩] := by
  have himages (text : String) :
      imagesIn ((link "text-gray-400 hover:text-white" text).nodes 2) = [] :=
    imagesIn_inline_of_ne 2 _ (by decide) _
  have hgroups (text : String) :
      groupsIn "div" ((link "text-gray-400 hover:text-white" text).nodes 2) = [] :=
    groupsIn_inline_of_ne 2 _ (by decide) _
  rw [linkBlock, groupsIn_block, if_pos rfl, labelsOfAll_map 2 (labelsIn_link 2 _)]
  simp [List.flatMap_map, himages, hgroups]

theorem groupsIn_imageBlock (captions : List String) :
    groupsIn "figure" ((imageBlock captions).nodes 1) = (captions.zipIdx 1).map shownFigure := by
  rw [imageBlock, groupsIn_block, if_neg (by decide), List.nil_append, figures_eq_map_zipIdx,
    List.flatMap_map, List.map_eq_flatMap]
  simp only [groupsIn_figure]

/-! ## Sources -/

theorem any_isTagged_body (c : Category) : (body c name texts).any Element.isTagged = true := by
  cases c with
  | navbar => cases texts <;> rfl
  | footer =>
      rw [body, footerBody_eq, List.any_append]
      exact Bool.or_true _
  | _ => rfl

/-- The labels of a component are those of its body. -/
theorem labels?_render (c : Category) (style : StyleTokens) :
    labels? (render c name texts style) = some (shown c name texts) := by
  rw [labels?, tree?_render, Option.map_some, source,
    labelsIn_block _ _ _ (any_isTagged_body name texts c), labelsOfAll_body]

/-- A footer has one block for the links, if there are any, and one for the copyright line. -/
theorem groups?_footer (style : StyleTokens) :
    groups? "div" (render .footer name texts style) =
      some ((if texts = [] then [] else [⟨[], shown .footer name texts⟩]) ++ [⟨[], []⟩]) := by
  have hcopyright : groupsIn "div" (copyrightBlock.nodes 1) = [⟨[], []⟩] := by decide +kernel
  rw [groups?, tree?_render, Option.map_some, source, groupsIn_block, if_neg (by decide),
    List.nil_append, body, footerBody_eq, List.flatMap_append, List.flatMap_singleton, hcopyright]
  split
  · rfl
  · rw [List.flatMap_singleton, groupsIn_linkBlock]
    rfl

/-- A gallery has one figure for every caption, numbered from one on. -/
theorem groups?_gallery (style : StyleTokens) :
    groups? "figure" (render .gallery name texts style) =
      some (((captions name texts).zipIdx 1).map shownFigure) := by
  have htitle : groupsIn "figure"
      ((Element.ofParam "h2" "font-bold text-xl mb-4" .title).nodes 1) = [] :=
    groupsIn_inline_of_ne 1 _ (by decide) _
  rw [groups?, tree?_render, Option.map_some, source, groupsIn_block, if_neg (by decide),
    List.nil_append, body, galleryBody_eq, List.flatMap_cons, htitle, List.nil_append,
    List.flatMap_singleton, groupsIn_imageBlock]

/-- Whatever characters the texts have, what the body of a component shows reads back from its source
as the texts at the positions that belong to the category.  The links of a footer stand in a block of
their own, which is left out if there are none, and the images of a gallery are numbered from one on,
each with its text both beside it and in place of it.  A navigation bar shows all texts, and a footer
the first of them, with the others in the default of its parameter. -/
theorem render_shows_texts (style : StyleTokens) :
    (∀ c, labels? (render c name texts style) = some (shown c name texts)) ∧
      groups? "div" (render .footer name texts style) =
        some ((if texts = [] then [] else [⟨[], shown .footer name texts⟩]) ++ [⟨[], []⟩]) ∧
      groups? "figure" (render .gallery name texts style) =
        some (((captions name texts).zipIdx 1).map shownFigure) ∧
      (∃ links, labels? (render .navbar name texts style) = some (links.map (Prod.mk "a")) ∧
        texts <+: links) ∧
      ∃ links rest, texts = links ++ rest ∧
        labels? (render .footer name texts style) = some (links.map (Prod.mk "a")) ∧
        Declares (render .footer name texts style)
          [("copyright", if rest = [] then name else " ".intercalate rest)] := by
  refine ⟨fun c => labels?_render name texts c style, groups?_footer name texts style,
    groups?_gallery name texts style, ⟨_, labels?_render name texts .navbar style, ?_⟩,
    texts.take 6, texts.drop 6, (List.take_append_drop 6 texts).symm,
    labels?_render name texts .footer style, ?_⟩
  · split
    · next hnil => exact hnil ▸ List.nil_prefix
    · exact List.prefix_rfl
  · have hdeclares := declares_render .footer name texts style
    rw [bindings, joinedTexts, List.take_length] at hdeclares
    simpa only [List.drop_eq_nil_iff] using hdeclares

/-- The texts of a section stand in its paragraphs as they are, also those that look like markup. -/
example : shown .blog "Blog" ["News", "a < b", "&lt;", "\x7bx\x7d", "Fifth"] =
    [("p", "a < b"), ("p", "&lt;"), ("p", "\x7bx\x7d")] := by
  decide

end Template
end DesignPages
