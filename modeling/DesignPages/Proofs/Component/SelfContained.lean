import DesignPages.Proofs.Component.Declaration
import DesignPages.Proofs.Component.Parts
import DesignPages.Proofs.Frame.Texts
import DesignPages.Proofs.Generation
import DesignPages.Proofs.Markup.Lines

/-!
# Components stand on their own

The source of a component consists of three lines of frontmatter and one element whose tags are
nested, and its expressions use only what the frontmatter declares.  This holds for every category,
name, list of texts and style.  Where no text holds a line feed, as none in an analyzed design does,
the line that ends the frontmatter occurs once.
-/

namespace DesignPages

open Markup

/-! ## The end of the frontmatter -/

theorem lineFeed_not_mem_of_isName {s : String} (h : isName s.toList = true) :
    '\n' ∉ s.toList := by
  cases hs : s.toList with
  | nil => exact List.not_mem_nil
  | cons c cs =>
      obtain ⟨hc, hcs⟩ : c.isAlpha = true ∧ cs.all isNameChar = true := by
        simpa [isName, hs] using h
      rw [List.mem_cons]
      rintro (rfl | hmem)
      · exact absurd hc (by decide)
      · exact absurd (List.all_eq_true.mp hcs '\n' hmem) (by decide)

/-- No line of a block begins like the end of a frontmatter. -/
theorem fence_not_mem_lines (tag : String) (attributes : List Attribute)
    (children : List Element) :
    ComponentSource.fence ∉ (Element.block tag attributes children).lines 0 := by
  have hheads : ∀ l ∈ (Element.block tag attributes children).lines 0,
      l.head? = some '<' ∨ l.head? = some ' ' := by
    intro l hl
    rw [Element.lines, List.cons_append, List.mem_cons, List.mem_append,
      List.mem_singleton] at hl
    rcases hl with rfl | hl | rfl
    · exact .inl rfl
    · exact .inr (head?_of_mem_linesOfAll 0 children l hl)
    · exact .inl rfl
  intro hmem
  exact absurd (hheads _ hmem) (by decide)

namespace ComponentSource

theorem root_suffix (s : ComponentSource) : joinLines (s.root.lines 0) <:+ s.chars := by
  refine ⟨fence ++ '\n' :: (declaration s.defaults ++ '\n' :: (fence ++ ['\n'])), ?_⟩
  simp [chars_eq]

theorem declaration_ne_fence (ds : List (Param × String)) : declaration ds ≠ fence := by
  intro heq
  have hhead : some 'c' = fence.head? := congrArg List.head? heq
  exact absurd hhead (by decide)

/-- If the parts of the root element stay on one line, the end of the frontmatter occurs once. -/
theorem occurrences_fence {s : ComponentSource} (hparts : ∀ p ∈ s.root.parts, p.OnOneLine)
    (hroot : fence ∉ s.root.lines 0) :
    occurrences ('\n' :: (fence ++ ['\n'])) s.chars = 1 := by
  have hfence : '\n' ∉ fence := by decide
  have hlines : ∀ l ∈ s.lines, '\n' ∉ l := by
    have hfront : ∀ l ∈ [fence, declaration s.defaults, fence], '\n' ∉ l := by
      simpa using ⟨hfence, lineFeed_not_mem_declaration s.defaults, hfence⟩
    intro l hl
    rcases List.mem_append.mp hl with hl | hl
    · exact hfront l hl
    · exact s.root.lineFeed_not_mem_lines 0 hparts l hl
  have hbetween : s.lines.tail.dropLast =
      declaration s.defaults :: fence :: (s.root.lines 0).dropLast := by
    obtain ⟨l, ls, hroot⟩ := List.exists_cons_of_ne_nil (s.root.lines_ne_nil 0)
    rw [lines, hroot]
    rfl
  have hbelow : (s.root.lines 0).dropLast.count fence = 0 :=
    List.count_eq_zero.mpr fun hmem => hroot (List.mem_of_mem_dropLast hmem)
  rw [chars, occurrences_joinLines hfence hlines, hbetween,
    List.count_cons_of_ne (declaration_ne_fence s.defaults), List.count_cons_self, hbelow]

end ComponentSource

namespace Template

variable {c : Category} {name : String} {texts : List String} {style : StyleTokens}

theorem readable_source : Readable (source c name texts style).root.parts := by
  intro p hp
  rcases writes_source c name texts style p hp with ⟨t, -, rfl⟩ | hown
  · rfl
  · cases p with
    | name s => exact hown
    | text s => rfl
    | expression e => rfl

theorem onOneLine_of_mem (hname : '\n' ∉ name.toList) (htexts : ∀ t ∈ texts, '\n' ∉ t.toList) :
    ∀ p ∈ (source c name texts style).root.parts, p.OnOneLine := by
  have hinputs : ∀ t ∈ name :: texts, '\n' ∉ t.toList :=
    List.forall_mem_cons.mpr ⟨hname, htexts⟩
  intro p hp
  cases p with
  | name s => exact lineFeed_not_mem_of_isName (readable_source _ hp)
  | text s =>
      rcases writes_source c name texts style _ hp with ⟨t, ht, heq⟩ | hown
      · rw [Part.text.inj heq]
        exact hinputs t ht
      · exact hown
  | expression e => trivial

/-- If neither the name nor a text holds a line feed, the end of the frontmatter occurs once. -/
theorem occurrences_fence_render (hname : '\n' ∉ name.toList)
    (htexts : ∀ t ∈ texts, '\n' ∉ t.toList) :
    occurrences "\n---\n".toList (render c name texts style).toList = 1 := by
  have hword : "\n---\n".toList = '\n' :: (ComponentSource.fence ++ ['\n']) := by decide
  rw [hword, render, ComponentSource.text, String.toList_ofList]
  exact ComponentSource.occurrences_fence (onOneLine_of_mem hname htexts)
    (fence_not_mem_lines _ _ _)

/-- The components of an analyzed design have names and texts on one line. -/
theorem lineFeed_not_mem_of_mem_selection {options : Options} {root : Option Design} {x : Component}
    (hx : x ∈ selection (Design.analyze options root)) :
    '\n' ∉ x.name.toList ∧ ∀ t ∈ x.texts, '\n' ∉ t.toList := by
  constructor
  · exact (isIdentifier_of_mem_selection hx).lineFeed_not_mem
  · obtain ⟨a, ha, hcomponent⟩ := exists_component_of_mem_selection hx
    have htexts : x.texts = a.frame.texts := by
      rw [hcomponent]
      rfl
    intro t ht
    rw [htexts] at ht
    exact Design.lineFeed_not_mem_of_mem_analyze ha ht

/-! ## Expressions and tags -/

theorem names_of_param? {e : Expression} {p : Param} (h : e.param? = some p) :
    Script.names e.body = [p.name.toList] := by
  cases e with
  | param q =>
      obtain rfl : q = p := Option.some.inj h
      exact Script.names_param q
  | initial q =>
      obtain rfl : q = p := Option.some.inj h
      exact Script.names_initial q
  | currentYear => contradiction
  | generator => contradiction

/-- An expression of a component is the year of a footer, or it uses declared parameters only. -/
theorem names_of_mem_expressions {e : List Char}
    (h : e ∈ (source c name texts style).root.parts.flatMap Part.expressions) :
    (c = .footer ∧ e = "new Date().getFullYear()".toList) ∨
      ∀ n ∈ Script.names e, ∃ d ∈ defaults c name texts, n = d.1.name.toList := by
  obtain ⟨p, hp, he⟩ := List.mem_flatMap.mp h
  cases p with
  | name s => exact absurd he List.not_mem_nil
  | text s => exact absurd he List.not_mem_nil
  | expression e' =>
      obtain rfl : e = e'.body := List.mem_singleton.mp he
      rcases writes_source c name texts style _ hp with ⟨t, -, heq⟩ | ⟨hfooter, rfl⟩ | ⟨q, hq, heq⟩
      · contradiction
      · exact .inl ⟨hfooter, rfl⟩
      · right
        rw [← map_fst_defaults c name texts] at hq
        obtain ⟨d, hd, rfl⟩ := List.mem_map.mp hq
        intro n hn
        rw [names_of_param? heq] at hn
        exact ⟨d, hd, List.mem_singleton.mp hn⟩

theorem closeTag_suffix (tag : String) (attributes : List Attribute) (children : List Element) :
    closeTag tag <:+ joinLines ((Element.block tag attributes children).lines 0) := by
  rw [Element.lines, List.cons_append, joinLines_eq_append_flatMap, List.flatMap_append]
  refine ⟨openTag tag attributes ++ (linesOfAll 1 children).flatMap ('\n' :: ·) ++ ['\n'], ?_⟩
  simp [indentation]

/-- The name of the element that a component of each category is. -/
def rootName : Category → String
  | .navbar => "nav"
  | .footer => "footer"
  | .card => "div"
  | _ => "section"

theorem rootTag_eq_rootName (c : Category) : rootTag c = rootName c := by
  cases c <;> rfl

/-- Every component stands on its own.  Its source has three lines in front of its markup, and the
second reads back as the declaration of its parameters; the markup reads as a single element with the
name that belongs to the category, and the source ends with the closing tag of this element; and every
expression in it uses declared parameters only, but for the year in a footer.  The end of the
frontmatter occurs once if no text holds a line feed, and this is so for every component of a
design. -/
theorem render_self_contained :
    (∀ (c : Category) (name : String) (texts : List String) (style : StyleTokens),
      ∃ declaration inner markup attributes children,
        (render c name texts style).toList =
            "---".toList ++ '\n' :: (declaration ++ '\n' :: ("---".toList ++ '\n' :: markup)) ∧
          declaration = "const \x7b ".toList ++ inner ++ " \x7d = Astro.props;".toList ∧
          '\n' ∉ declaration ∧
          Script.declaration? declaration = some ((defaults c name texts).map Script.readBack) ∧
          read markup = some [.element ⟨(rootName c).toList, attributes⟩ children] ∧
          "</".toList ++ (rootName c).toList ++ ">".toList <:+ (render c name texts style).toList ∧
          ∀ e ∈ expressionsIn [.element ⟨(rootName c).toList, attributes⟩ children],
            (c = .footer ∧ e = "new Date().getFullYear()".toList) ∨
              ∀ n ∈ Script.names e, ∃ d ∈ defaults c name texts, n = d.1.name.toList) ∧
    (∀ (c : Category) (name : String) (texts : List String) (style : StyleTokens),
      '\n' ∉ name.toList → (∀ t ∈ texts, '\n' ∉ t.toList) →
        occurrences "\n---\n".toList (render c name texts style).toList = 1) ∧
    ∀ (options : Options) (root : Option Design),
      ∃ c, Compilation.ofDesign options root = .ok c ∧
        ∀ x ∈ c.page.components, '\n' ∉ x.name.toList ∧ (∀ t ∈ x.texts, '\n' ∉ t.toList) ∧
          occurrences "\n---\n".toList x.source.toList = 1 := by
  refine ⟨?_, ?_, ?_⟩
  · intro c name texts style
    let root := (source c name texts style).root
    have hsource : (render c name texts style).toList = _ :=
      String.toList_ofList.trans (ComponentSource.chars_eq (source c name texts style))
    have hread := root.read_lines 0 readable_source
    have hexpressions := root.expressionsIn_nodes 0
    rw [← rootTag_eq_rootName c]
    refine ⟨_, _, joinLines (root.lines 0), _, _, hsource,
      ComponentSource.declaration_eq _, ComponentSource.lineFeed_not_mem_declaration _,
      Script.declaration?_declaration (defaults_ne_nil c name texts), hread, ?_, ?_⟩
    · have hclose : closeTag (rootTag c) <:+ joinLines (root.lines 0) := closeTag_suffix _ _ _
      rw [hsource, ← ComponentSource.chars_eq]
      exact hclose.trans (ComponentSource.root_suffix _)
    · intro e he
      exact names_of_mem_expressions (hexpressions ▸ he)
  · intro c name texts style hname htexts
    exact occurrences_fence_render hname htexts
  · intro options root
    refine ⟨_, Compilation.generate_eq options (Design.analyze options root), ?_⟩
    intro x hx
    have hx' := (Page.order_perm _).mem_iff.mp hx
    obtain ⟨hname, htexts⟩ := lineFeed_not_mem_of_mem_selection hx'
    obtain ⟨a, -, ha⟩ := exists_component_of_mem_selection hx'
    have hsource : x.source = render x.category x.name x.texts a.frame.style := by
      rw [ha]
      rfl
    refine ⟨hname, htexts, ?_⟩
    rw [hsource]
    exact occurrences_fence_render hname htexts

/-- Texts that look like the end of a frontmatter and of an element do not pass for them. -/
theorem occurrences_fence_of_markup :
    ('\n' ∉ "Card".toList ∧ ∀ t ∈ ["---", "</div>\x7bx\x7d"], '\n' ∉ t.toList) ∧
      occurrences "\n---\n".toList
        (render .card "Card" ["---", "</div>\x7bx\x7d"] .none).toList = 1 := by
  have hname : '\n' ∉ "Card".toList := by decide
  have htexts : ∀ t ∈ ["---", "</div>\x7bx\x7d"], '\n' ∉ t.toList := by decide
  exact ⟨⟨hname, htexts⟩, render_self_contained.2.1 .card "Card" _ .none hname htexts⟩

end Template
end DesignPages
