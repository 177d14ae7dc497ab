import DesignPages.Proofs.Component.Line
import DesignPages.Proofs.Markup.Tree

/-!
# What templates write

This module follows what a template puts into the markup of a component.  A part of that markup is
either the name of the component or a text of its frame, which then stands in the place of a text,
or it is the template's own: a name that markup can read, a text on one line, or an expression over
the parameters that the component declares.
-/

namespace DesignPages
namespace Template

open Markup

/-- The parameters that the components of a category declare. -/
def parameters (c : Category) : List Param :=
  (defaults c "" []).map Prod.fst

theorem map_fst_defaults (c : Category) (name : String) (texts : List String) :
    (defaults c name texts).map Prod.fst = parameters c := by
  cases c <;> rfl

/-- What the template of a category writes of its own. -/
def IsOwn (c : Category) : Part → Prop
  | .name s => isName s.toList = true
  | .text s => '\n' ∉ s.toList
  | .expression e => (c = .footer ∧ e = .currentYear) ∨ ∃ p ∈ parameters c, e.param? = some p

/-- Checks that a part can be the template's own.  A text is checked byte by byte, which is cheaper
to evaluate than its characters are. -/
def checkOwn (c : Category) : Part → Bool
  | .name s => isName s.toList
  | .text s => decide (10 ∉ s.toByteArray.data.toList)
  | .expression e => decide ((c = .footer ∧ e = .currentYear) ∨
      ∃ p ∈ parameters c, e.param? = some p)

theorem isOwn_of_checkOwn {c : Category} {p : Part} (h : checkOwn c p = true) : IsOwn c p := by
  cases p with
  | name s => exact h
  | text s => exact Text.lineFeed_not_mem_of_bytes (of_decide_eq_true h)
  | expression e =>
      rw [checkOwn, decide_eq_true_eq] at h
      exact h

/-- What the template of a category writes for the given texts. -/
def Writes (c : Category) (inputs : List String) (p : Part) : Prop :=
  (∃ t ∈ inputs, p = .text t) ∨ IsOwn c p

variable {c : Category} {inputs : List String}

theorem writes_own {ps : List Part} (h : ps.all (checkOwn c) = true) :
    ∀ p ∈ ps, Writes c inputs p := by
  intro p hp
  exact .inr (isOwn_of_checkOwn (List.all_eq_true.mp h p hp))

theorem writes_ownText {s : String} (h : '\n' ∉ s.toList) :
    ∀ p ∈ [Part.text s], Writes c inputs p := by
  intro p hp
  rw [List.mem_singleton.mp hp]
  exact .inr h

theorem writes_append {ps qs : List Part} (hps : ∀ p ∈ ps, Writes c inputs p)
    (hqs : ∀ p ∈ qs, Writes c inputs p) : ∀ p ∈ ps ++ qs, Writes c inputs p :=
  List.forall_mem_append.mpr ⟨hps, hqs⟩

theorem writes_text {t : String} (h : t ∈ inputs) : ∀ p ∈ [Part.text t], Writes c inputs p := by
  intro p hp
  exact .inl ⟨t, h, List.mem_singleton.mp hp⟩

theorem writes_singleton {e : Element} (h : ∀ p ∈ e.parts, Writes c inputs p) :
    ∀ p ∈ partsOfAll [e], Writes c inputs p := by
  rw [partsOfAll, partsOfAll, List.append_nil]
  exact h

theorem writes_elements_append {es fs : List Element}
    (hes : ∀ p ∈ partsOfAll es, Writes c inputs p)
    (hfs : ∀ p ∈ partsOfAll fs, Writes c inputs p) :
    ∀ p ∈ partsOfAll (es ++ fs), Writes c inputs p := by
  rw [partsOfAll_eq_flatMap] at hes hfs ⊢
  rw [List.flatMap_append]
  exact writes_append hes hfs

/-- Elements one for each text. -/
theorem writes_map {f : String → Element} {ts : List String} (hts : ts ⊆ inputs)
    (hf : ∀ t ∈ inputs, ∀ p ∈ (f t).parts, Writes c inputs p) :
    ∀ p ∈ partsOfAll (ts.map f), Writes c inputs p := by
  intro p hp
  rw [partsOfAll_eq_flatMap, List.flatMap_map] at hp
  obtain ⟨t, ht, hp⟩ := List.mem_flatMap.mp hp
  exact hf t (hts ht) p hp

/-- An element on one line around a text. -/
theorem writes_inline {tag : String} {attributes : List Attribute} {t : String}
    (htag : (tagParts tag attributes).all (checkOwn c) = true) (ht : t ∈ inputs) :
    ∀ p ∈ (Element.inline tag attributes [.text t]).parts, Writes c inputs p :=
  writes_append (writes_own htag) (writes_text ht)

/-! ## Bodies -/

variable {name : String} {texts : List String}

theorem labels_subset (name : String) {labels : List String} (h : labels ⊆ texts) :
    (if texts = [] then [name] else labels) ⊆ name :: texts := by
  intro t ht
  split at ht
  · exact List.mem_cons.mpr (.inl (List.mem_singleton.mp ht))
  · exact List.mem_cons_of_mem name (h ht)

theorem slice_subset (first count : ℕ) : slice texts first count ⊆ name :: texts := fun _ ht =>
  List.mem_cons_of_mem name (List.mem_of_mem_drop (List.mem_of_mem_take ht))

theorem writes_navbarBody :
    ∀ p ∈ partsOfAll (navbarBody name texts), Writes .navbar (name :: texts) p := by
  apply writes_map (labels_subset name (List.Subset.refl texts))
  intro t ht
  exact writes_inline (by decide) ht

theorem writes_footerBody :
    ∀ p ∈ partsOfAll (footerBody texts), Writes .footer (name :: texts) p := by
  unfold footerBody
  cases hlinks : texts.take footerLinks with
  | nil => exact writes_own (by decide)
  | cons t ts =>
      have hsubset : t :: ts ⊆ name :: texts := by
        rw [← hlinks]
        exact fun _ ht => List.mem_cons_of_mem name (List.mem_of_mem_take ht)
      have hlink : ∀ t ∈ name :: texts, ∀ p ∈ (link "text-gray-400 hover:text-white" t).parts,
          Writes .footer (name :: texts) p := fun t ht => writes_inline (by decide) ht
      exact writes_append
        (writes_append (writes_own (by decide)) (writes_map hsubset hlink))
        (writes_own (by decide))

/-- An image up to its source. -/
theorem writes_image {source : String} (hsource : '\n' ∉ source.toList) :
    ∀ p ∈ [Part.name "img", .name "src"] ++ [.text source], Writes c inputs p :=
  writes_append (writes_own rfl) (writes_ownText hsource)

theorem writes_figure (number : ℕ) {caption : String} (h : caption ∈ inputs) :
    ∀ p ∈ (figure number caption).parts, Writes .gallery inputs p := by
  have hsource : '\n' ∉
      ("https://via.placeholder.com/150?text=Image+" ++ toString number).toList := by
    have hdigits := Text.lineFeed_not_mem_toDigits number
    simp [hdigits]
  have hcaption : ∀ p ∈ [Part.name "alt"] ++ [.text caption], Writes .gallery inputs p :=
    writes_append (writes_own (by decide)) (writes_text h)
  have hclass : ∀ p ∈ [Part.name "class", .text "rounded shadow mb-2"],
      Writes .gallery inputs p := writes_own (by decide)
  have himage := writes_append (writes_append (writes_image hsource) hcaption) hclass
  exact writes_append (writes_own (by decide))
    (writes_append himage (writes_singleton (writes_inline (by decide) h)))

theorem writes_figures (number : ℕ) {captions : List String} (h : captions ⊆ inputs) :
    ∀ p ∈ partsOfAll (figures number captions), Writes .gallery inputs p := by
  induction captions generalizing number with
  | nil => exact List.forall_mem_nil _
  | cons caption captions ih =>
      obtain ⟨hcaption, hcaptions⟩ := List.cons_subset.mp h
      exact writes_append (writes_figure number hcaption) (ih (number + 1) hcaptions)

theorem writes_galleryBody :
    ∀ p ∈ partsOfAll (galleryBody name texts), Writes .gallery (name :: texts) p := by
  have hcaptions := labels_subset name (List.take_subset galleryImages texts)
  exact writes_append (writes_own (by decide)) <|
    writes_singleton <|
    writes_append (writes_own (by decide)) (writes_figures 1 hcaptions)

theorem writes_paragraphs {className fallback : String} {ts : List String}
    (htag : (tagParts "p" [.text "class" className]).all (checkOwn c) = true)
    (hfallback : '\n' ∉ fallback.toList) (h : ts ⊆ inputs) :
    ∀ p ∈ partsOfAll (paragraphs className fallback ts), Writes c inputs p := by
  cases ts with
  | nil => exact writes_singleton (writes_append (writes_own htag) (writes_ownText hfallback))
  | cons t ts =>
      apply writes_map h
      intro t ht
      exact writes_inline htag ht

theorem writes_cardBody :
    ∀ p ∈ partsOfAll (cardBody name texts), Writes .card (name :: texts) p := by
  have hsource : '\n' ∉ ("https://via.placeholder.com/300x150?text=" ++
      Text.formEncode (titleOr name texts)).toList := by
    have hencoded := Text.lineFeed_not_mem_formEncode (titleOr name texts)
    simp [hencoded]
  have hrest : ∀ p ∈ [Part.name "alt", .expression (.param .title), .name "class",
      .text "rounded mt-2 w-full"], Writes .card (name :: texts) p := writes_own (by decide)
  have himage := writes_append (writes_image hsource) hrest
  have hfallback := Text.lineFeed_not_mem_of_bytes
    (s := "This is a card component with some description text.") (by decide)
  exact writes_elements_append
    (writes_append (writes_own (by decide))
      (writes_paragraphs (by decide) hfallback (slice_subset 1 bodyParagraphs)))
    (writes_singleton himage)

theorem writes_body (c : Category) (name : String) (texts : List String) :
    ∀ p ∈ partsOfAll (body c name texts), Writes c (name :: texts) p := by
  cases c with
  | navbar => exact writes_navbarBody
  | footer => exact writes_footerBody
  | gallery => exact writes_galleryBody
  | card => exact writes_cardBody
  | hero | testimonial | newsletter | cta => exact writes_own (by simp only [body]; decide)
  | aboutUs | blog | plainSection =>
      exact writes_append (writes_own (by decide))
        (writes_paragraphs (by decide) (by decide) (slice_subset 1 bodyParagraphs))

theorem writes_rootAttributes (c : Category) (name : String) (style : StyleTokens) :
    ∀ p ∈ tagParts (rootTag c) (rootAttributes c name style), Writes c (name :: texts) p := by
  have htag : [.name (rootTag c), .name "id"].all (checkOwn c) = true := by
    cases c <;> decide
  have hlabel : ((if c = .navbar then [Attribute.param "aria-label" .title] else []).flatMap
      Attribute.parts).all (checkOwn c) = true := by
    cases c <;> decide
  have hid : ∀ p ∈ [.name (rootTag c), .name "id"] ++ [.text name],
      Writes c (name :: texts) p :=
    writes_append (writes_own htag) (writes_text List.mem_cons_self)
  have hclass : ∀ p ∈ [.name "class"] ++ [.text (rootClass c style)],
      Writes c (name :: texts) p :=
    writes_append (writes_own rfl) (writes_ownText (lineFeed_not_mem_rootClass c style))
  unfold rootAttributes tagParts
  rw [List.flatMap_append]
  exact writes_append (writes_append hid hclass) (writes_own hlabel)

/-- Whatever stands in the markup of a component is the template's own, or it is the name or a text
and stands in the place of a text. -/
theorem writes_source (c : Category) (name : String) (texts : List String) (style : StyleTokens) :
    ∀ p ∈ (source c name texts style).root.parts, Writes c (name :: texts) p :=
  writes_append (writes_rootAttributes c name style) (writes_body c name texts)

end Template
end DesignPages
