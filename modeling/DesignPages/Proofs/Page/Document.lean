import DesignPages.Proofs.Component.Declaration
import DesignPages.Proofs.Frame.Texts
import DesignPages.Proofs.Generation
import DesignPages.Proofs.Markup.Query
import Mathlib.Data.List.Nodup
import Mathlib.Data.List.TakeWhile

/-!
# Pages as documents

The source of a page imports its components, one on a line, and shows each of them once in the
document behind the imports.  Options are arbitrary texts: none of them ends the imports early or
adds an element, and every one is read back from the place where it stands.
-/

namespace DesignPages

/-! ## Lines of imports -/

namespace Script

/-- Reads a line that imports a name from a path. -/
def import? (cs : List Char) : Option (List Char × List Char) := do
  let cs ← cs.dropPrefix? "import ".toList
  let name := cs.takeWhile Char.isAlphanum
  let cs ← (cs.dropWhile Char.isAlphanum).dropPrefix? " from ".toList
  let (path, cs) ← literal? cs
  if cs = [';'] then some (name, path) else none

end Script

namespace Page

open Markup

theorem importLine_eq (dir : String) (x : Component) :
    importLine dir x = "import ".toList ++ (x.name.toList ++ (" from ".toList ++
      (Json.stringLiteralChars (importPath dir x).toList ++ [';']))) := by
  unfold importLine
  simp only [List.append_assoc]

theorem import?_importLine (dir : String) {x : Component} (h : IsIdentifier x.name) :
    Script.import? (importLine dir x) = some (x.name.toList, (importPath dir x).toList) := by
  let behind := " from ".toList ++ (Json.stringLiteralChars (importPath dir x).toList ++ [';'])
  have hstop : behind.head?.any Char.isAlphanum = false := rfl
  have hname := Text.takeWhile_run h.isAlphanum_of_mem hstop
  have hbehind := Text.dropWhile_run h.isAlphanum_of_mem hstop
  rw [importLine_eq, Script.import?, Script.dropPrefix?_append]
  simp only [Option.bind_eq_bind, Option.bind_some]
  rw [hname, hbehind]
  simp only [behind, Script.dropPrefix?_append, Script.literal?_append, Option.bind_some, if_pos]

theorem lineFeed_not_mem_importLine (dir : String) {x : Component} (h : IsIdentifier x.name) :
    '\n' ∉ importLine dir x := by
  have hpath := Json.lineFeed_not_mem_stringLiteralChars (importPath dir x).toList
  have hfront : '\n' ∉ "import ".toList := by decide
  have hfrom : '\n' ∉ " from ".toList := by decide
  simp only [importLine_eq, List.mem_append, not_or]
  exact ⟨hfront, h.lineFeed_not_mem, hfrom, hpath, by decide⟩

/-- Only slashes are missing from the end of a trimmed folder, and none is left there. -/
theorem exists_slashes (s : String) :
    ∃ slashes, s.toList = (trimSlashes s).toList ++ slashes ∧ (∀ d ∈ slashes, d = '/') ∧
      (trimSlashes s).toList.getLast? ≠ some '/' := by
  let back := s.toList.reverse
  have htrim : (trimSlashes s).toList = (back.dropWhile (· == '/')).reverse :=
    String.toList_ofList
  refine ⟨(back.takeWhile (· == '/')).reverse, ?_, ?_, ?_⟩
  · rw [htrim, ← List.reverse_append, List.takeWhile_append_dropWhile, List.reverse_reverse]
  · intro d hd
    have hslash := List.mem_takeWhile_imp (List.mem_reverse.mp hd)
    exact beq_iff_eq.mp hslash
  · rw [htrim, List.getLast?_reverse]
    intro hhead
    have hslash := List.head?_dropWhile_not (· == '/') back
    rw [hhead] at hslash
    exact absurd hslash (by decide)

/-! ## The document behind the imports -/

/-- What stands behind the imports of a page: an empty line, and the markup. -/
def document (options : PageOptions) (cs : List Component) : List Char :=
  '\n' :: joinLines ((html options cs).lines 0)

theorem joinLines_append (ls : List (List Char)) {ms : List (List Char)} (h : ms ≠ []) :
    joinLines (ls ++ ms) = joinLines (ls ++ [joinLines ms]) := by
  induction ls with
  | nil => simp [joinLines]
  | cons l ls ih =>
      have hne {ns : List (List Char)} (hns : ns ≠ []) : ls ++ ns ≠ [] :=
        List.append_ne_nil_of_right_ne_nil ls hns
      rw [List.cons_append, List.cons_append, joinLines_cons l (hne h),
        joinLines_cons l (hne (List.cons_ne_nil _ _)), ih]

theorem joinLines_lines (options : PageOptions) (cs : List Component) :
    joinLines (lines options cs) =
      joinLines (["---".toList] ++ cs.map (importLine options.componentsDir) ++
        ["---".toList, document options cs]) := by
  have hlines : lines options cs =
      (["---".toList] ++ cs.map (importLine options.componentsDir) ++ ["---".toList]) ++
        ([] :: (html options cs).lines 0) := by
    simp [lines]
  have hdocument : joinLines ([] :: (html options cs).lines 0) = document options cs := by
    rw [joinLines_cons [] ((html options cs).lines_ne_nil 0)]
    rfl
  rw [hlines, joinLines_append _ (List.cons_ne_nil _ _), hdocument]
  simp

variable {options : PageOptions} {cs : List Component}

theorem isName_of_isIdentifier {s : String} (h : IsIdentifier s) : isName s.toList = true := by
  obtain ⟨c, cs, hs, hc, hcs⟩ := h
  have hrest : ∀ d ∈ cs, isNameChar d = true := by
    intro d hd
    simp [isNameChar, hcs d hd]
  rw [hs, isName, hc, List.all_eq_true.mpr hrest]
  rfl

theorem readable_head (options : PageOptions) : Readable (head options).parts := by
  let fixed := ["head", "meta", "charset", "link", "rel", "type", "href", "meta", "name", "content",
    "meta", "name", "content", "title"]
  obtain ⟨title, lang, componentsDir, script⟩ := options
  cases script with
  | none => exact readable_of_names (show _ = fixed from rfl) (by decide)
  | some src => exact readable_of_names (show _ = fixed ++ ["script", "src"] from rfl) (by decide)

theorem readable_tags (h : ∀ x ∈ cs, IsIdentifier x.name) :
    Readable (partsOfAll (cs.map fun x => .void x.name [])) := by
  rw [partsOfAll_eq_flatMap, List.flatMap_map]
  intro p hp
  obtain ⟨x, hx, hp⟩ := List.mem_flatMap.mp hp
  rw [List.mem_singleton.mp hp]
  exact isName_of_isIdentifier (h x hx)

theorem readable_html (h : ∀ x ∈ cs, IsIdentifier x.name) :
    Readable (html options cs).parts := by
  have hhtml : Readable (tagParts "html" [.text "lang" options.lang]) :=
    readable_of_names (show _ = ["html", "lang"] from rfl) (by decide)
  have hbody : Readable (tagParts "body" [.text "class" "bg-gray-100 min-h-screen"] ++
      tagParts "div" [.text "class" "container mx-auto px-4 py-8"]) :=
    readable_of_names (show _ = ["body", "class", "div", "class"] from rfl) (by decide)
  have hparts : (html options cs).parts =
      tagParts "html" [.text "lang" options.lang] ++ (head options).parts ++
        (tagParts "body" [.text "class" "bg-gray-100 min-h-screen"] ++
          tagParts "div" [.text "class" "container mx-auto px-4 py-8"]) ++
        partsOfAll (cs.map fun x => .void x.name []) := by
    simp [html, body, Element.parts, partsOfAll]
  rw [hparts]
  exact ((hhtml.append (readable_head options)).append hbody).append (readable_tags h)

/-- The document of a page reads as the nodes of its markup. -/
theorem read_document (h : ∀ x ∈ cs, IsIdentifier x.name) :
    Markup.read (document options cs) = some (.char '\n' :: (html options cs).nodes 0) := by
  have hbreak : step .content '\n' = some (.content, [.char '\n']) := rfl
  exact read_of_run (run_cons hbreak ((html options cs).run_lines 0 (readable_html h)))

/-! ## Nodes with a tag -/

/-- The nodes in the head of a page. -/
def headNodes (options : PageOptions) : List Node :=
  [.void (rawTag "meta" [.text "charset" "utf-8"]),
    .void (rawTag "link"
      [.text "rel" "icon", .text "type" "image/svg+xml", .text "href" "/favicon.svg"]),
    .void (rawTag "meta"
      [.text "name" "viewport", .text "content" "width=device-width, initial-scale=1.0"]),
    .void (rawTag "meta" [.text "name" "generator", ⟨"content", .expression .generator⟩]),
    .element (rawTag "title" []) ([.text options.title].flatMap Inline.nodes)] ++
    (options.script.map fun src => .element (rawTag "script" [.text "src" src]) []).toList

/-- The nodes with a tag in front of the components of a page, where the lists hold what is inside
them. -/
def fixedNodes (options : PageOptions) (inHtml inHead inBody inMain : List Node) : List Node :=
  [.element (rawTag "html" [.text "lang" options.lang]) inHtml,
    .element (rawTag "head" []) inHead] ++ headNodes options ++
    [.element (rawTag "body" [.text "class" "bg-gray-100 min-h-screen"]) inBody,
      .element (rawTag "div" [.text "class" "container mx-auto px-4 py-8"]) inMain]

theorem exists_tagged_block (level : ℕ) (tag : String) (attributes : List Attribute)
    (children : List Element) :
    ∃ inside, (Element.block tag attributes children).tagged level =
      .element (rawTag tag attributes) inside :: taggedOfAll (level + 1) children :=
  ⟨_, rfl⟩

theorem exists_tagged_head (options : PageOptions) (level : ℕ) :
    ∃ inHead, (head options).tagged level =
      .element (rawTag "head" []) inHead :: headNodes options := by
  obtain ⟨title, lang, componentsDir, script⟩ := options
  cases script with
  | none => exact ⟨_, rfl⟩
  | some src => exact ⟨_, rfl⟩

theorem taggedOfAll_tags (level : ℕ) (cs : List Component) :
    taggedOfAll level (cs.map fun x => .void x.name []) =
      cs.map fun x => .void (rawTag x.name []) := by
  induction cs with
  | nil => rfl
  | cons x cs ih =>
      rw [List.map_cons, taggedOfAll, ih]
      rfl

theorem exists_tagged_html (options : PageOptions) (cs : List Component) :
    ∃ inHtml inHead inBody inMain, (html options cs).tagged 0 =
      fixedNodes options inHtml inHead inBody inMain ++
        cs.map fun x => .void (rawTag x.name []) := by
  obtain ⟨inHtml, hhtml⟩ := exists_tagged_block 0 "html" [.text "lang" options.lang]
    [head options, body cs]
  obtain ⟨inHead, hhead⟩ := exists_tagged_head options 1
  obtain ⟨inMain, hmain⟩ := exists_tagged_block 2 "div"
    [.text "class" "container mx-auto px-4 py-8"] (cs.map fun x => .void x.name [])
  obtain ⟨inBody, hbody⟩ := exists_tagged_block 1 "body"
    [.text "class" "bg-gray-100 min-h-screen"]
    [.block "div" [.text "class" "container mx-auto px-4 py-8"]
      (cs.map fun x => .void x.name [])]
  refine ⟨inHtml, inHead, inBody, inMain, ?_⟩
  rw [html, hhtml, taggedOfAll, taggedOfAll, taggedOfAll, hhead, body, hbody, taggedOfAll,
    taggedOfAll, hmain, taggedOfAll_tags]
  simp [fixedNodes]

/-! ## What the document shows -/

/-- What the tree of a page shows, with components of the given names: the options in their places,
and every component once. -/
structure Shows (options : PageOptions) (names : List (List Char)) (tree : List Node) : Prop where
  root : ∃ t children, t.name = "html".toList ∧ tree = [.char '\n', .element t children]
  lang : (nodesNamed ["html".toList] tree).map (Node.attribute? "lang".toList) =
    [some options.lang.toList]
  title : (nodesNamed ["title".toList] tree).map Node.text? = [some options.title.toList]
  script : (nodesNamed ["script".toList] tree).map (Node.attribute? "src".toList) =
    options.script.toList.map fun src => some src.toList
  components : nodesNamed names tree = names.map fun name => .void ⟨name, []⟩

/-- Whether a name begins with a capital letter.  The names of components do, and those of other
tags do not. -/
def isCapitalized (name : List Char) : Bool :=
  name.head?.any Char.isUpper

theorem not_isCapitalized_of_mem_fixedNodes {inHtml inHead inBody inMain : List Node} :
    ∀ n ∈ fixedNodes options inHtml inHead inBody inMain,
      n.tag?.any (fun t => isCapitalized t.name) = false := by
  obtain ⟨title, lang, componentsDir, script⟩ := options
  cases script <;> simp [fixedNodes, headNodes, Node.tag?, rawTag, isCapitalized]

theorem nodesNamed_tree (names : List (List Char)) (options : PageOptions) (cs : List Component) :
    nodesNamed names (.char '\n' :: (html options cs).nodes 0) =
      ((html options cs).tagged 0).filter (Node.isNamed names) := by
  rw [← Element.nodesNamed_nodes]
  exact collect_append [.char '\n'] _

/-- The nodes with the name of another tag are not those of components. -/
theorem exists_nodesNamed_tag (options : PageOptions)
    (h : ∀ x ∈ cs, isCapitalized x.name.toList = true) {tag : List Char}
    (htag : isCapitalized tag = false) :
    ∃ inHtml inHead inBody inMain,
      nodesNamed [tag] (.char '\n' :: (html options cs).nodes 0) =
        (fixedNodes options inHtml inHead inBody inMain).filter (Node.isNamed [tag]) := by
  obtain ⟨inHtml, inHead, inBody, inMain, htagged⟩ := exists_tagged_html options cs
  have hcomponents : (cs.map fun x => Node.void (rawTag x.name [])).filter
      (Node.isNamed [tag]) = [] := by
    apply List.filter_eq_nil_iff.mpr
    intro n hn
    obtain ⟨x, hx, rfl⟩ := List.mem_map.mp hn
    have hne : x.name.toList ≠ tag := by
      rintro rfl
      rw [h x hx] at htag
      contradiction
    simpa [Node.isNamed, Node.tag?, rawTag] using hne
  refine ⟨inHtml, inHead, inBody, inMain, ?_⟩
  rw [nodesNamed_tree, htagged, List.filter_append, hcomponents, List.append_nil]

theorem map_lang (h : ∀ x ∈ cs, isCapitalized x.name.toList = true) :
    (nodesNamed ["html".toList] (.char '\n' :: (html options cs).nodes 0)).map
      (Node.attribute? "lang".toList) = [some options.lang.toList] := by
  obtain ⟨inHtml, inHead, inBody, inMain, hnodes⟩ := exists_nodesNamed_tag options h
    (show isCapitalized "html".toList = false by decide)
  have hfilter : (fixedNodes options inHtml inHead inBody inMain).filter
      (Node.isNamed ["html".toList]) =
        [.element (rawTag "html" [.text "lang" options.lang]) inHtml] := by
    obtain ⟨title, lang, componentsDir, script⟩ := options
    cases script <;> simp [fixedNodes, headNodes, Node.isNamed, Node.tag?, rawTag]
  rw [hnodes, hfilter, List.map_singleton, Node.attribute?_of_tag? rfl]

theorem map_title (h : ∀ x ∈ cs, isCapitalized x.name.toList = true) :
    (nodesNamed ["title".toList] (.char '\n' :: (html options cs).nodes 0)).map Node.text? =
      [some options.title.toList] := by
  obtain ⟨inHtml, inHead, inBody, inMain, hnodes⟩ := exists_nodesNamed_tag options h
    (show isCapitalized "title".toList = false by decide)
  have hfilter : (fixedNodes options inHtml inHead inBody inMain).filter
      (Node.isNamed ["title".toList]) =
        [.element (rawTag "title" []) ((escapeText options.title.toList).map .char)] := by
    obtain ⟨title, lang, componentsDir, script⟩ := options
    cases script <;> simp [fixedNodes, headNodes, Node.isNamed, Node.tag?, rawTag, Inline.nodes_text]
  rw [hnodes, hfilter, List.map_singleton, Node.text?_element]

theorem map_script (h : ∀ x ∈ cs, isCapitalized x.name.toList = true) :
    (nodesNamed ["script".toList] (.char '\n' :: (html options cs).nodes 0)).map
      (Node.attribute? "src".toList) = options.script.toList.map fun src => some src.toList := by
  obtain ⟨inHtml, inHead, inBody, inMain, hnodes⟩ := exists_nodesNamed_tag options h
    (show isCapitalized "script".toList = false by decide)
  have hfilter : (fixedNodes options inHtml inHead inBody inMain).filter
      (Node.isNamed ["script".toList]) =
        options.script.toList.map fun src => .element (rawTag "script" [.text "src" src]) [] := by
    obtain ⟨title, lang, componentsDir, script⟩ := options
    cases script <;> simp [fixedNodes, headNodes, Node.isNamed, Node.tag?, rawTag]
  rw [hnodes, hfilter, List.map_map]
  apply List.map_congr_left
  intro src hsrc
  exact Node.attribute?_of_tag? rfl

theorem nodesNamed_components (h : ∀ x ∈ cs, isCapitalized x.name.toList = true) :
    nodesNamed (cs.map fun x => x.name.toList) (.char '\n' :: (html options cs).nodes 0) =
      cs.map fun x => .void ⟨x.name.toList, []⟩ := by
  obtain ⟨inHtml, inHead, inBody, inMain, htagged⟩ := exists_tagged_html options cs
  have hfixed : (fixedNodes options inHtml inHead inBody inMain).filter
      (Node.isNamed (cs.map fun x => x.name.toList)) = [] := by
    apply List.filter_eq_nil_iff.mpr
    intro n hn hnamed
    have hlow := not_isCapitalized_of_mem_fixedNodes n hn
    rw [Node.isNamed] at hnamed
    cases htag : n.tag? with
    | none =>
        rw [htag] at hnamed
        contradiction
    | some t =>
        rw [htag, Option.any_some] at hlow hnamed
        obtain ⟨x, hx, hname⟩ := List.mem_map.mp (List.contains_iff_mem.mp hnamed)
        rw [← hname, h x hx] at hlow
        contradiction
  have hcomponents : (cs.map fun x => Node.void (rawTag x.name [])).filter
      (Node.isNamed (cs.map fun x => x.name.toList)) =
        cs.map fun x => .void (rawTag x.name []) := by
    apply List.filter_eq_self.mpr
    intro n hn
    obtain ⟨x, hx, rfl⟩ := List.mem_map.mp hn
    simpa [Node.isNamed, Node.tag?, rawTag] using ⟨x, hx, rfl⟩
  rw [nodesNamed_tree, htagged, List.filter_append, hfixed, hcomponents]
  rfl

theorem shows_html (h : ∀ x ∈ cs, isCapitalized x.name.toList = true) :
    Shows options (cs.map fun x => x.name.toList) (.char '\n' :: (html options cs).nodes 0) where
  root := ⟨_, _, rfl, rfl⟩
  lang := map_lang h
  title := map_title h
  script := map_script h
  components := by
    rw [nodesNamed_components h, List.map_map]
    rfl

/-! ## Generated pages -/

/-- Lines that import components of the given names from a folder, whatever slashes stand at the end
of the folder. -/
structure Imports (folder : List Char) (names lines : List (List Char)) : Prop where
  onOneLine : ∀ l ∈ lines, '\n' ∉ l
  read : ∃ trimmed slashes, folder = trimmed ++ slashes ∧ (∀ d ∈ slashes, d = '/') ∧
    trimmed.getLast? ≠ some '/' ∧
    lines.map Script.import? =
      names.map fun name => some (name, trimmed ++ '/' :: (name ++ ".astro".toList))

theorem imports_importLines (folder : String) (h : ∀ x ∈ cs, IsIdentifier x.name) :
    Imports folder.toList (cs.map fun x => x.name.toList) (cs.map (importLine folder)) where
  onOneLine := by
    intro l hl
    obtain ⟨x, hx, rfl⟩ := List.mem_map.mp hl
    exact lineFeed_not_mem_importLine folder (h x hx)
  read := by
    obtain ⟨slashes, hfolder, hslashes, hlast⟩ := exists_slashes folder
    refine ⟨_, slashes, hfolder, hslashes, hlast, ?_⟩
    rw [List.map_map, List.map_map]
    apply List.map_congr_left
    intro x hx
    have hpath : (importPath folder x).toList =
        (trimSlashes folder).toList ++ '/' :: (x.name.toList ++ ".astro".toList) := by
      simp [importPath, Component.fileName]
    rw [Function.comp_apply, Function.comp_apply, import?_importLine folder (h x hx), hpath]

end Page

namespace Compilation

theorem isCapitalized_of_mem_selection {frames : List AnalyzedFrame} {x : Component}
    (h : x ∈ selection frames) : Page.isCapitalized x.name.toList = true := by
  obtain ⟨number, hname⟩ := exists_nameOf_of_mem_selection h
  have hlabel : ∀ c : Category, Page.isCapitalized c.label.toList = true := by
    intro c
    cases c <;> decide
  rw [hname, Ledger.toList_nameOf]
  cases hchars : x.category.label.toList with
  | nil => exact absurd (hlabel x.category) (by rw [hchars]; decide)
  | cons d ds =>
      have hfirst := hlabel x.category
      rw [hchars] at hfirst
      exact hfirst

/-- The page of every list of frames has the imports of its components between two fences, one on a
line, and behind them a document that shows every component once, in the same order.  The folder,
the language, the title and the script of the options are read back from their places. -/
theorem generate_page_reads (options : Options) (frames : List AnalyzedFrame) :
    ∃ c imports document tree, generate options frames = .ok c ∧
      c.page.source.toList =
        Markup.joinLines (["---".toList] ++ imports ++ ["---".toList, document]) ∧
      Page.Imports options.page.componentsDir.toList
        (c.page.components.map fun x => x.name.toList) imports ∧
      Markup.read document = some tree ∧
      Page.Shows options.page (c.page.components.map fun x => x.name.toList) tree ∧
      (c.page.components.map fun x => x.name.toList).Nodup := by
  have hmem {x : Component} (hx : x ∈ Page.order (selection frames)) : x ∈ selection frames :=
    (Page.order_perm _).mem_iff.mp hx
  have hnames : ∀ x ∈ Page.order (selection frames), IsIdentifier x.name := by
    intro x hx
    obtain ⟨number, hname⟩ := exists_nameOf_of_mem_selection (hmem hx)
    rw [hname]
    exact Ledger.nameOf_isIdentifier x.category number
  refine ⟨_, _, _, _, generate_eq options frames, ?_, Page.imports_importLines _ hnames,
    Page.read_document hnames,
    Page.shows_html fun x hx => isCapitalized_of_mem_selection (hmem hx), ?_⟩
  · exact String.toList_ofList.trans (Page.joinLines_lines _ _)
  · have hnodup := (((Page.order_perm (selection frames)).map Component.name).nodup_iff).mpr
      (selection_names_nodup frames)
    have hinjective : Function.Injective String.toList := fun _ _ h => String.toList_inj.mp h
    have hchars := (List.nodup_map_iff hinjective).mpr hnodup
    rwa [List.map_map] at hchars

end Compilation
end DesignPages
