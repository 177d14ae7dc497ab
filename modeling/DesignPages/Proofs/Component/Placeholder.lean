import DesignPages.Proofs.Component.Shown
import DesignPages.Proofs.Link.Query

/-!
# The image of a card

A card shows an image that is made of its title.  The title goes to the image as a parameter of its
address, in form encoding, and the address stands in an attribute.  Form encoding writes nothing that an
attribute has to escape, so that the address stands in the source as it is, and its parameter decodes to
the title whatever characters that has.

With the preview links this is the other place where texts go into an address, and the main statement is
about both.
-/

namespace DesignPages
namespace Template

open Markup
open Text (IsFormCharacter formDecode? formEncode utf8)

/-- The values of an attribute in the elements of a source that have a name, as they are written. -/
def rawValues? (tag attributeName source : String) : Option (List (Option RawValue)) :=
  (tree? source).map fun ns =>
    (nodesNamed [tag.toList] ns).map (Node.rawValue? attributeName.toList)

/-! ## Addresses of images -/

/-- The address of the image of a card. -/
def placeholder (title : String) : List Char :=
  Link.addressOf "https://via.placeholder.com/300x150" [("text", title)]

theorem toList_placeholder (title : String) :
    ("https://via.placeholder.com/300x150?text=" ++ formEncode title).toList =
      placeholder title := by
  have hname : (formEncode "text").toList = "text".toList := by decide
  simp [placeholder, Link.addressOf, Link.parameterChars, hname]

/-- The address stands in an attribute as it is. -/
theorem escapeAttribute_placeholder (title : String) :
    escapeAttribute (placeholder title) = placeholder title := by
  have hpage : ∀ c ∈ "https://via.placeholder.com/300x150?text=".toList,
      escapeAttributeChar c = [c] :=
    List.all_iff_forall_prop.mp (by decide)
  have htitle : ∀ c ∈ (formEncode title).toList, escapeAttributeChar c = [c] := by
    intro c hc
    apply escapeAttributeChar_eq_self
    intro hescaped
    exact Link.not_mem_formEncode (List.mem_append_right ['=', '?', '#'] hescaped) title hc
  apply escapeAttribute_eq_self
  rw [← toList_placeholder, String.toList_append]
  exact List.forall_mem_append.mpr ⟨hpage, htitle⟩

/-- The title is the only parameter, whatever characters it has. -/
theorem parameters?_placeholder (title : String) :
    Link.parameters? (placeholder title) = some [(utf8 "text", utf8 title)] := by
  rw [placeholder, Link.parameters?_addressOf (by decide) (by decide) (List.cons_ne_nil _ _)]
  rfl

/-! ## Sources of cards -/

theorem exists_ofText_of_mem_paragraphs {className fallback : String} {texts : List String}
    {e : Element} (he : e ∈ paragraphs className fallback texts) :
    ∃ text, e = .ofText "p" className text := by
  cases texts with
  | nil => exact ⟨fallback, List.mem_singleton.mp he⟩
  | cons t ts =>
      obtain ⟨text, -, rfl⟩ := List.mem_map.mp he
      exact ⟨text, rfl⟩

theorem nodesNamed_paragraphs {tag : String} (h : "p" ≠ tag) (level : ℕ)
    (className fallback : String) (texts : List String) :
    (paragraphs className fallback texts).flatMap
      (fun e => nodesNamed [tag.toList] (e.nodes level)) = [] := by
  rw [List.flatMap_eq_nil_iff]
  intro e he
  obtain ⟨text, rfl⟩ := exists_ofText_of_mem_paragraphs he
  exact nodesNamed_inline_of_ne level _ h _

/-- A card has one image, whose address is that of its title. -/
theorem rawValues?_card (name : String) (texts : List String) (style : StyleTokens) :
    rawValues? "img" "src" (render .card name texts style) =
      some [some (.quoted (placeholder (texts.getD 0 name)))] := by
  have htitle : nodesNamed ["img".toList]
      ((Element.ofParam "h3" "font-bold text-lg mb-2" .title).nodes 1) = [] :=
    nodesNamed_inline_of_ne 1 _ (by decide) _
  rw [rawValues?, tree?_render, Option.map_some, source, body, cardBody, rootTag,
    nodesNamed_block_of_ne 0 _ (by decide), List.cons_append, List.flatMap_cons, htitle,
    List.nil_append, List.flatMap_append, nodesNamed_paragraphs (by decide), List.nil_append,
    List.flatMap_singleton, nodesNamed_void, if_pos rfl, List.map_singleton,
    Node.rawValue?_of_tag? rfl, toList_placeholder, escapeAttribute_placeholder, titleOr_eq_getD]

/-! ## Both places -/

/-- Form encoding loses nothing and is safe where it is used.  What it writes are letters, digits and a
few marks, and decodes to the UTF-8 form of the text.  A share link has a preview link if it has a file
key; the preview link ends with the encoded share link, has it as a parameter beside the one of its
base and no other, and belongs to no other share link.  The image of a card has the title of the card
as its only parameter, in an address that no attribute has to escape. -/
theorem formEncode_carries_texts :
    (∀ s, (∀ c ∈ (formEncode s).toList, IsFormCharacter c) ∧
      formDecode? (formEncode s).toList = some (utf8 s)) ∧
    (∀ url, (∃ preview, Link.embed url = .ok preview) ↔ ∃ key, Link.fileKey url = .ok key) ∧
    (∀ url preview, Link.embed url = .ok preview →
      (∃ value, preview = Link.embedBase ++ value ∧ formDecode? value.toList = some (utf8 url)) ∧
        Link.parameters? preview.toList =
          some [(utf8 "embed_host", utf8 "sprig"), (utf8 "url", utf8 url)] ∧
        ∀ url', Link.embed url' = .ok preview → url' = url) ∧
    ∀ name texts style, ∃ title address,
      Declares (render .card name texts style) [("title", title)] ∧
        rawValues? "img" "src" (render .card name texts style) = some [some (.quoted address)] ∧
        escapeAttribute address = address ∧
        Link.parameters? address = some [(utf8 "text", utf8 title)] := by
  refine ⟨fun s => ⟨fun _ => Text.isFormCharacter_of_mem_formEncode, Text.formDecode?_formEncode s⟩,
    Link.exists_embed_iff, ?_, ?_⟩
  · intro url preview hpreview
    obtain ⟨-, rfl⟩ := (Link.embed_eq_ok_iff url preview).mp hpreview
    refine ⟨⟨formEncode url, rfl, Text.formDecode?_formEncode url⟩, Link.parameters?_preview url, ?_⟩
    intro url' hpreview'
    obtain ⟨-, hsame⟩ := (Link.embed_eq_ok_iff url' _).mp hpreview'
    exact (Link.preview_injective hsame).symm
  · intro name texts style
    exact ⟨texts.getD 0 name, placeholder (texts.getD 0 name),
      declares_render .card name texts style, rawValues?_card name texts style,
      escapeAttribute_placeholder _, parameters?_placeholder _⟩

/-- A share link with parameters and a fragment of its own is one parameter of its preview link. -/
theorem formEncode_carries_sampleLink :
    ∃ preview, Link.embed "https://www.figma.com/file/abc?a=1&b=2#c" = .ok preview ∧
      Link.parameters? preview.toList =
        some [(utf8 "embed_host", utf8 "sprig"),
          (utf8 "url", utf8 "https://www.figma.com/file/abc?a=1&b=2#c")] := by
  obtain ⟨preview, hpreview⟩ :=
    (formEncode_carries_texts.2.1 "https://www.figma.com/file/abc?a=1&b=2#c").mpr
      ⟨"abc", by decide⟩
  exact ⟨preview, hpreview, (formEncode_carries_texts.2.2.1 _ preview hpreview).2.1⟩

end Template
end DesignPages
