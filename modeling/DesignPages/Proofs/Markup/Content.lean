import DesignPages.Proofs.Markup.Query

/-!
# The texts that elements show

This module reads the texts off a tree, in their order and with their entities decoded, each with the
name of the element that holds it.  An element that holds a text and nothing else is a label here;
words that stand beside an expression are none.
-/

namespace DesignPages
namespace Markup

/-! ## Labels -/

/-- The name of a node that holds a text and nothing else, with this text. -/
def Node.label? (n : Node) : Option (String × String) := do
  let t ← n.tag?
  let text ← n.text?
  some (String.ofList t.name, String.ofList text)

/-- The labels in the nodes and below them. -/
def labelsIn (ns : List Node) : List (String × String) :=
  collect (fun n => n.label?.toList) ns

theorem label?_char (c : Char) : (Node.char c).label?.toList = [] := rfl

theorem label?_text (tag : String) (attributes : List Attribute) (s : String) :
    (Node.element (rawTag tag attributes) ((escapeText s.toList).map .char)).label? =
      some (tag, s) := by
  simp [Node.label?, Node.tag?, Node.text?_element, rawTag]

theorem mapM_char?_eq_none {ns : List Node} (h : ∃ n ∈ ns, n.char? = none) :
    ns.mapM Node.char? = none := by
  obtain ⟨n, hn, hnone⟩ := h
  obtain ⟨before, behind, rfl⟩ := List.append_of_mem hn
  simp [List.mapM_append, hnone]

/-- A node with something else than characters in it is not a label. -/
theorem label?_eq_none (t : RawTag) {ns : List Node} (h : ∃ n ∈ ns, n.char? = none) :
    (Node.element t ns).label? = none := by
  simp [Node.label?, Node.tag?, Node.text?, mapM_char?_eq_none h]

/-! ## Labels of elements -/

/-- The labels in elements one after the other. -/
def labelsOfAll (level : ℕ) (es : List Element) : List (String × String) :=
  es.flatMap fun e => labelsIn (e.nodes level)

section Inline

variable (level : ℕ) (tag : String) (attributes : List Attribute)

theorem labelsIn_inline (content : List Inline) :
    labelsIn ((Element.inline tag attributes content).nodes level) =
      (Node.element (rawTag tag attributes) (content.flatMap Inline.nodes)).label?.toList := by
  rw [labelsIn, collect_nodes_inline label?_char, collect_inlineNodes label?_char fun _ => rfl,
    List.append_nil]

/-- An element around a text is a label with this text. -/
theorem labelsIn_inline_text (s : String) :
    labelsIn ((Element.inline tag attributes [.text s]).nodes level) = [(tag, s)] := by
  rw [labelsIn_inline, List.flatMap_singleton, Inline.nodes_text, label?_text, Option.toList_some]

/-- An element that shows an expression is no label. -/
theorem labelsIn_inline_expression {content : List Inline} {e : Expression}
    (h : .expression e ∈ content) :
    labelsIn ((Element.inline tag attributes content).nodes level) = [] := by
  have hnode : ∃ n ∈ content.flatMap Inline.nodes, n.char? = none :=
    ⟨.expression e.body, List.mem_flatMap.mpr ⟨_, h, List.mem_singleton_self _⟩, rfl⟩
  rw [labelsIn_inline, label?_eq_none _ hnode, Option.toList_none]

end Inline

theorem labelsIn_void (level : ℕ) (tag : String) (attributes : List Attribute) :
    labelsIn ((Element.void tag attributes).nodes level) = [] := by
  rw [labelsIn, collect_nodes_void label?_char]
  rfl

/-- Whether an element has a tag. -/
def Element.isTagged : Element → Bool
  | line _ => false
  | _ => true

theorem Element.exists_node_of_isTagged {e : Element} (h : e.isTagged = true) (level : ℕ) :
    ∃ n ∈ e.nodes level, n.char? = none := by
  cases e with
  | line content => contradiction
  | inline tag attributes content =>
      exact ⟨_, List.mem_append_right _ (List.mem_singleton_self _), rfl⟩
  | void tag attributes =>
      exact ⟨_, List.mem_append_right _ (List.mem_singleton_self _), rfl⟩
  | block tag attributes children =>
      exact ⟨_, List.mem_append_right _ (List.mem_singleton_self _), rfl⟩

theorem mem_nodesBelow {level : ℕ} {es : List Element} {e : Element} (he : e ∈ es) {n : Node}
    (hn : n ∈ e.nodes level) : n ∈ nodesBelow level es := by
  induction es with
  | nil => contradiction
  | cons e' es ih =>
      rw [nodesBelow, List.mem_append]
      rcases List.mem_cons.mp he with rfl | he
      · exact .inl (List.mem_cons_of_mem _ hn)
      · exact .inr (ih he)

/-- A block with an element in it has the labels of its children. -/
theorem labelsIn_block (level : ℕ) (tag : String) (attributes : List Attribute)
    {children : List Element} (h : children.any Element.isTagged = true) :
    labelsIn ((Element.block tag attributes children).nodes level) =
      labelsOfAll (level + 1) children := by
  obtain ⟨e, he, htagged⟩ := List.any_eq_true.mp h
  obtain ⟨n, hn, hnone⟩ := e.exists_node_of_isTagged htagged (level + 1)
  have hnode : ∃ n ∈ nodesBelow (level + 1) children ++ .char '\n' :: blanks level,
      n.char? = none :=
    ⟨n, List.mem_append_left _ (mem_nodesBelow he hn), hnone⟩
  rw [labelsIn, collect_nodes_block label?_char, label?_eq_none _ hnode]
  rfl

/-! ## Groups -/

/-- The nodes between the tags of an element. -/
def Node.children : Node → List Node
  | element _ children => children
  | _ => []

/-- The source of an image and the text that stands for it. -/
def Node.image (n : Node) : Option String × Option String :=
  ((n.attribute? "src".toList).map String.ofList, (n.attribute? "alt".toList).map String.ofList)

/-- The images in the nodes and below them. -/
def imagesIn (ns : List Node) : List (Option String × Option String) :=
  (nodesNamed ["img".toList] ns).map Node.image

/-- The images and the labels in an element. -/
structure Group where
  images : List (Option String × Option String)
  labels : List (String × String)
  deriving DecidableEq, Repr

/-- What shows in a node. -/
def Node.group (n : Node) : Group :=
  ⟨imagesIn n.children, labelsIn n.children⟩

/-- What shows in each of the elements with a name. -/
def groupsIn (tag : String) (ns : List Node) : List Group :=
  (nodesNamed [tag.toList] ns).map Node.group

theorem isNamed_singleton {n : Node} {tag : String} {attributes : List Attribute}
    (h : n.tag? = some (rawTag tag attributes)) (name : String) :
    n.isNamed [name.toList] = decide (tag = name) := by
  simp [Node.isNamed, h, rawTag, String.toList_inj]

section Elements

variable {tag name : String} (level : ℕ) (attributes : List Attribute)

theorem nodesNamed_inline_of_ne (h : tag ≠ name) (content : List Inline) :
    nodesNamed [name.toList] ((Element.inline tag attributes content).nodes level) = [] := by
  rw [Element.nodesNamed_nodes, Element.tagged, filter_isNamed_cons, isNamed_singleton rfl,
    decide_eq_false h]
  rfl

theorem nodesNamed_void (tag name : String) :
    nodesNamed [name.toList] ((Element.void tag attributes).nodes level) =
      if tag = name then [.void (rawTag tag attributes)] else [] := by
  rw [Element.nodesNamed_nodes, Element.tagged, filter_isNamed_cons, isNamed_singleton rfl]
  simp

/-- In a block of another name only the children count. -/
theorem nodesNamed_block_of_ne (h : tag ≠ name) (children : List Element) :
    nodesNamed [name.toList] ((Element.block tag attributes children).nodes level) =
      children.flatMap fun e => nodesNamed [name.toList] (e.nodes (level + 1)) := by
  rw [nodesNamed, collect_nodes_block fun _ => rfl, isNamed_singleton rfl, decide_eq_false h]
  rfl

theorem imagesIn_inline_of_ne (h : tag ≠ "img") (content : List Inline) :
    imagesIn ((Element.inline tag attributes content).nodes level) = [] := by
  rw [imagesIn, nodesNamed_inline_of_ne level attributes h, List.map_nil]

/-- An image shows its source and its text, whatever characters these have. -/
theorem imagesIn_void (source text : String) :
    imagesIn ((Element.void "img" (.text "src" source :: .text "alt" text :: attributes)).nodes
      level) = [(some source, some text)] := by
  have hsource : (Node.void (rawTag "img" (.text "src" source :: .text "alt" text ::
      attributes))).attribute? "src".toList = some source.toList :=
    Node.attribute?_of_tag? rfl
  have htext : (Node.void (rawTag "img" (.text "src" source :: .text "alt" text ::
      attributes))).attribute? "alt".toList = some text.toList :=
    (Node.attribute?_of_tag?_of_ne rfl (by simp [Attribute.text])).trans
      (Node.attribute?_of_tag? rfl)
  rw [imagesIn, nodesNamed_void, if_pos rfl, List.map_singleton, Node.image, hsource, htext]
  simp

theorem groupsIn_inline_of_ne (h : tag ≠ name) (content : List Inline) :
    groupsIn name ((Element.inline tag attributes content).nodes level) = [] := by
  rw [groupsIn, nodesNamed_inline_of_ne level attributes h, List.map_nil]

theorem groupsIn_void_of_ne (h : tag ≠ name) :
    groupsIn name ((Element.void tag attributes).nodes level) = [] := by
  rw [groupsIn, nodesNamed_void, if_neg h, List.map_nil]

/-- A block with the name shows what its children show, and so do the blocks in it. -/
theorem groupsIn_block (tag name : String) (children : List Element) :
    groupsIn name ((Element.block tag attributes children).nodes level) =
      (if tag = name then
        [⟨children.flatMap fun e => imagesIn (e.nodes (level + 1)),
          labelsOfAll (level + 1) children⟩]
      else []) ++
        children.flatMap fun e => groupsIn name (e.nodes (level + 1)) := by
  have himages : imagesIn (nodesBelow (level + 1) children ++ .char '\n' :: blanks level) =
      children.flatMap fun e => imagesIn (e.nodes (level + 1)) := by
    rw [imagesIn, nodesNamed, collect_children fun _ => rfl, List.map_flatMap]
    rfl
  have hlabels : labelsIn (nodesBelow (level + 1) children ++ .char '\n' :: blanks level) =
      labelsOfAll (level + 1) children :=
    collect_children label?_char level children
  rw [groupsIn, nodesNamed, collect_nodes_block fun _ => rfl, isNamed_singleton rfl,
    List.map_append, List.map_flatMap]
  by_cases h : tag = name
  · simp only [decide_eq_true h, if_true, if_pos h, List.map_cons, List.map_nil, Node.group,
      Node.children, himages, hlabels]
    rfl
  · simp only [decide_eq_false h, if_neg h]
    rfl

end Elements

end Markup
end DesignPages
