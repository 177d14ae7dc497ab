import DesignPages.Proofs.Markup.Entity
import DesignPages.Proofs.Markup.Tree

/-!
# Asking trees for elements and texts

This module finds the nodes of a tree that have one of some names, and reads the texts that elements
and attributes hold, with their entities decoded.
-/

namespace DesignPages
namespace Markup

/-- The text that the value of an attribute holds. -/
def RawValue.text? : RawValue → Option (List Char)
  | quoted cs => decodeEntities cs
  | braced _ => none

namespace Node

/-- The tag of a node. -/
def tag? : Node → Option RawTag
  | char _ => none
  | expression _ => none
  | void t => some t
  | element t _ => some t

/-- The value of an attribute of a node as it is written. -/
def rawValue? (name : List Char) (n : Node) : Option RawValue := do
  let t ← n.tag?
  t.attributes.lookup name

/-- The text that an attribute of a node holds. -/
def attribute? (name : List Char) (n : Node) : Option (List Char) := do
  let t ← n.tag?
  let value ← t.attributes.lookup name
  value.text?

/-- The character that a node is. -/
def char? : Node → Option Char
  | char c => some c
  | _ => none

/-- The text that an element holds, if it holds nothing else. -/
def text? : Node → Option (List Char)
  | element _ children => (children.mapM char?).bind decodeEntities
  | _ => none

/-- Whether a node has one of the names. -/
def isNamed (names : List (List Char)) (n : Node) : Bool :=
  n.tag?.any fun t => names.contains t.name

end Node

/-- The nodes with one of the names, in the order of their text. -/
def nodesNamed (names : List (List Char)) (ns : List Node) : List Node :=
  collect (fun n => if n.isNamed names then [n] else []) ns

/-- An attribute whose value is a text holds this text. -/
theorem Node.attribute?_of_tag? {n : Node} {tag name text : String} {attributes : List Attribute}
    (h : n.tag? = some (rawTag tag (.text name text :: attributes))) :
    n.attribute? name.toList = some text.toList := by
  simp [attribute?, h, rawTag, Attribute.raw, Attribute.text, AttributeValue.raw, RawValue.text?]

theorem Node.rawValue?_of_tag? {n : Node} {tag name text : String} {attributes : List Attribute}
    (h : n.tag? = some (rawTag tag (.text name text :: attributes))) :
    n.rawValue? name.toList = some (.quoted (escapeAttribute text.toList)) := by
  simp [rawValue?, h, rawTag, Attribute.raw, Attribute.text, AttributeValue.raw]

/-- An attribute of another name does not count. -/
theorem Node.attribute?_of_tag?_of_ne {n : Node} {tag name : String} {a : Attribute}
    {attributes : List Attribute} (h : n.tag? = some (rawTag tag (a :: attributes)))
    (hname : name ≠ a.name) :
    n.attribute? name.toList = (Node.void (rawTag tag attributes)).attribute? name.toList := by
  have hlookup : (name.toList == a.name.toList) = false :=
    beq_eq_false_iff_ne.mpr fun heq => hname (String.toList_inj.mp heq)
  have hvoid : (Node.void (rawTag tag attributes)).tag? = some (rawTag tag attributes) := rfl
  rw [attribute?, attribute?, h, hvoid]
  simp [rawTag, Attribute.raw, List.lookup_cons, hlookup]

theorem mapM_char? (cs : List Char) : (cs.map Node.char).mapM Node.char? = some cs := by
  induction cs with
  | nil => rfl
  | cons c cs ih => simp [ih, Node.char?]

/-- An element around a text holds this text. -/
theorem Node.text?_element (t : RawTag) (s : String) :
    (Node.element t ((escapeText s.toList).map Node.char)).text? = some s.toList := by
  rw [text?, mapM_char?, Option.bind_some, decodeEntities_escapeText]

/-! ## The nodes with a tag -/

mutual

/-- The nodes of an element that have a tag. -/
def Element.tagged (level : ℕ) : Element → List Node
  | .line _ => []
  | .inline tag attributes content =>
    [.element (rawTag tag attributes) (content.flatMap Inline.nodes)]
  | .void tag attributes => [.void (rawTag tag attributes)]
  | .block tag attributes children =>
    .element (rawTag tag attributes)
        (nodesBelow (level + 1) children ++ .char '\n' :: blanks level) ::
      taggedOfAll (level + 1) children

/-- The nodes of elements that have a tag. -/
def taggedOfAll (level : ℕ) : List Element → List Node
  | [] => []
  | e :: es => e.tagged level ++ taggedOfAll level es

end

section Named

variable (names : List (List Char))

theorem nodesNamed_inlineNodes (content : List Inline) :
    nodesNamed names (content.flatMap Inline.nodes) = [] :=
  collect_inlineNodes (fun _ => rfl) (fun _ => rfl) content

theorem filter_isNamed_cons (n : Node) (ns : List Node) :
    (n :: ns).filter (Node.isNamed names) =
      (if n.isNamed names then [n] else []) ++ ns.filter (Node.isNamed names) := by
  by_cases h : n.isNamed names = true
  · rw [List.filter_cons_of_pos h, if_pos h, List.singleton_append]
  · rw [List.filter_cons_of_neg h, if_neg h, List.nil_append]

mutual

/-- Only nodes with a tag have a name: no text adds one. -/
theorem Element.nodesNamed_nodes (level : ℕ) (e : Element) :
    nodesNamed names (e.nodes level) = (e.tagged level).filter (Node.isNamed names) := by
  have hchar (c : Char) :
      (if (Node.char c).isNamed names then [Node.char c] else []) = [] := rfl
  cases e with
  | line content =>
      rw [nodesNamed, Element.nodes, collect_blanks_append hchar]
      exact nodesNamed_inlineNodes names content
  | inline tag attributes content =>
      rw [nodesNamed, collect_nodes_inline hchar, Element.tagged, filter_isNamed_cons]
      exact congrArg _ (nodesNamed_inlineNodes names content)
  | void tag attributes =>
      rw [nodesNamed, collect_nodes_void hchar, Element.tagged, filter_isNamed_cons]
      exact (List.append_nil _).symm
  | block tag attributes children =>
      rw [nodesNamed, collect_nodes_block hchar, Element.tagged, filter_isNamed_cons]
      exact congrArg _ (nodesNamed_children (level + 1) children)

/-- The same for elements one after the other. -/
theorem nodesNamed_children (level : ℕ) (es : List Element) :
    es.flatMap (fun e => nodesNamed names (e.nodes level)) =
      (taggedOfAll level es).filter (Node.isNamed names) := by
  cases es with
  | nil => rfl
  | cons e es =>
      rw [List.flatMap_cons, e.nodesNamed_nodes level, nodesNamed_children level es, taggedOfAll,
        List.filter_append]

end

end Named

end Markup
end DesignPages
