import DesignPages.Proofs.Markup.Token
import Mathlib.Data.List.Flatten

/-!
# Reading trees of elements

This module reads markup as a tree.  A closing tag must have the name of the element that was opened
last and is still open, and at the end none may be open, so that whatever reads as a tree is
balanced.

A printed element reads back: its tags nest as the element does, and nothing that stands in a text
or in the value of an attribute becomes a node of the tree.
-/

namespace DesignPages
namespace Markup

/-! ## The reader -/

/-- A node of the tree that markup forms. -/
inductive Node where
  | char (c : Char)
  | expression (body : List Char)
  | void (t : RawTag)
  | element (t : RawTag) (children : List Node)
  deriving Repr

/-- The elements that are still open, innermost first, each with the nodes in front of it, and the
nodes that were read in the innermost. -/
structure Nest where
  opened : List (RawTag × List Node)
  nodes : List Node

namespace Nest

/-- The nest with more nodes in the innermost element. -/
def add (s : Nest) (ns : List Node) : Nest :=
  ⟨s.opened, s.nodes ++ ns⟩

/-- Reads one token. -/
def step (s : Nest) : Token → Option Nest
  | .char c => some (s.add [.char c])
  | .expression body => some (s.add [.expression body])
  | .void t => some (s.add [.void t])
  | .opening t => some ⟨(t, s.nodes) :: s.opened, []⟩
  | .closing name =>
    match s.opened with
    | [] => none
    | (t, before) :: opened =>
      if t.name = name then some ⟨opened, before ++ [.element t s.nodes]⟩ else none

theorem add_nil (s : Nest) : s.add [] = s := by
  simp [add]

theorem add_add (s : Nest) (ns ms : List Node) : (s.add ns).add ms = s.add (ns ++ ms) := by
  simp [add]

end Nest

/-- The tree that a piece of markup forms. -/
def read (cs : List Char) : Option (List Node) := do
  let s ← (← tokens cs).foldlM Nest.step ⟨[], []⟩
  if s.opened.isEmpty then some s.nodes else none

/-! ## Trees as tokens -/

mutual

/-- The tokens of a node. -/
def Node.tokens : Node → List Token
  | .char c => [.char c]
  | .expression body => [.expression body]
  | .void t => [.void t]
  | .element t children => .opening t :: tokensOfAll children ++ [.closing t.name]

/-- The tokens of nodes. -/
def tokensOfAll : List Node → List Token
  | [] => []
  | n :: ns => n.tokens ++ tokensOfAll ns

end

@[simp] theorem tokensOfAll_append (ns ms : List Node) :
    tokensOfAll (ns ++ ms) = tokensOfAll ns ++ tokensOfAll ms := by
  induction ns with
  | nil => rfl
  | cons n ns ih => simp [tokensOfAll, ih]

@[simp] theorem tokensOfAll_map_char (cs : List Char) :
    tokensOfAll (cs.map Node.char) = cs.map Token.char := by
  induction cs with
  | nil => rfl
  | cons c cs ih => simp [tokensOfAll, Node.tokens, ih]

mutual

/-- The tokens of a node add it to the nest. -/
theorem Node.foldlM_tokens (n : Node) (s : Nest) :
    n.tokens.foldlM Nest.step s = some (s.add [n]) := by
  cases n with
  | char c => rfl
  | expression body => rfl
  | void t => rfl
  | element t children =>
      have hchildren := foldlM_tokensOfAll children ⟨(t, s.nodes) :: s.opened, []⟩
      rw [Node.tokens, List.foldlM_append, List.foldlM_cons]
      simp [Nest.step, Nest.add, hchildren]

/-- The tokens of nodes add these to the nest. -/
theorem foldlM_tokensOfAll (ns : List Node) (s : Nest) :
    (tokensOfAll ns).foldlM Nest.step s = some (s.add ns) := by
  cases ns with
  | nil => rw [tokensOfAll, List.foldlM_nil, s.add_nil]; rfl
  | cons n ns =>
      have hfirst := n.foldlM_tokens s
      have hrest := foldlM_tokensOfAll ns (s.add [n])
      rw [s.add_add] at hrest
      rw [tokensOfAll, List.foldlM_append, hfirst]
      exact hrest

end

/-- Markup that has the tokens of a tree reads as that tree. -/
theorem read_of_run {cs : List Char} {ns : List Node}
    (h : run .content cs = some (.content, tokensOfAll ns)) : read cs = some ns := by
  have htokens : tokens cs = some (tokensOfAll ns) := by
    simp [tokens, h]
  have hnest := foldlM_tokensOfAll ns ⟨[], []⟩
  simp [read, htokens, hnest, Nest.add]

/-! ## Trees of elements -/

/-- A name, a text or an expression of an element. -/
inductive Part where
  | name (s : String)
  | text (s : String)
  | expression (e : Expression)
  deriving DecidableEq, Repr

/-- The value of an attribute as a part. -/
def AttributeValue.part : AttributeValue → Part
  | text s => .text s
  | expression e => .expression e

/-- The parts of an attribute. -/
def Attribute.parts (a : Attribute) : List Part :=
  [.name a.name, a.value.part]

/-- The parts of an inline piece. -/
def Inline.parts : Inline → List Part
  | text s => [.text s]
  | copyrightSign => []
  | expression e => [.expression e]

/-- The parts of a tag. -/
def tagParts (tag : String) (attributes : List Attribute) : List Part :=
  .name tag :: attributes.flatMap Attribute.parts

mutual

/-- The parts of an element, in order. -/
def Element.parts : Element → List Part
  | .line content => content.flatMap Inline.parts
  | .inline tag attributes content => tagParts tag attributes ++ content.flatMap Inline.parts
  | .void tag attributes => tagParts tag attributes
  | .block tag attributes children => tagParts tag attributes ++ partsOfAll children

/-- The parts of elements. -/
def partsOfAll : List Element → List Part
  | [] => []
  | e :: es => e.parts ++ partsOfAll es

end

theorem partsOfAll_eq_flatMap (es : List Element) : partsOfAll es = es.flatMap Element.parts := by
  induction es with
  | nil => rfl
  | cons e es ih => rw [partsOfAll, ih, List.flatMap_cons]

/-- The nodes of an inline piece. -/
def Inline.nodes : Inline → List Node
  | text s => (escapeText s.toList).map .char
  | copyrightSign => "&copy;".toList.map .char
  | expression e => [.expression e.body]

theorem Inline.nodes_text (s : String) :
    (Inline.text s).nodes = (escapeText s.toList).map .char := rfl

theorem Inline.nodes_expression (e : Expression) :
    (Inline.expression e).nodes = [.expression e.body] := rfl

/-- The nodes of the spaces in front of a line. -/
def blanks (level : ℕ) : List Node :=
  (indentation level).map .char

mutual

/-- The nodes of an element, with the spaces in front of its first line. -/
def Element.nodes (level : ℕ) : Element → List Node
  | .line content => blanks level ++ content.flatMap Inline.nodes
  | .inline tag attributes content =>
    blanks level ++ [.element (rawTag tag attributes) (content.flatMap Inline.nodes)]
  | .void tag attributes => blanks level ++ [.void (rawTag tag attributes)]
  | .block tag attributes children =>
    blanks level ++
      [.element (rawTag tag attributes)
        (nodesBelow (level + 1) children ++ .char '\n' :: blanks level)]

/-- The nodes of elements on lines of their own, each behind a line break. -/
def nodesBelow (level : ℕ) : List Element → List Node
  | [] => []
  | e :: es => .char '\n' :: e.nodes level ++ nodesBelow level es

end

/-! ## Printed elements read back -/

theorem joinLines_eq_append_flatMap (l : List Char) (ls : List (List Char)) :
    joinLines (l :: ls) = l ++ ls.flatMap ('\n' :: ·) := by
  induction ls generalizing l with
  | nil => simp [joinLines]
  | cons l' ls ih =>
      rw [joinLines_cons l (List.cons_ne_nil l' ls), ih, List.flatMap_cons, List.cons_append]

theorem Element.flatMap_lines (level : ℕ) (e : Element) :
    (e.lines level).flatMap ('\n' :: ·) = '\n' :: joinLines (e.lines level) := by
  cases hlines : e.lines level with
  | nil => cases e <;> simp [Element.lines] at hlines
  | cons l ls => rw [joinLines_eq_append_flatMap, List.flatMap_cons, List.cons_append]

theorem run_blanks (level : ℕ) :
    run .content (indentation level) = some (.content, tokensOfAll (blanks level)) := by
  have hspaces : structureOf (indentation level) = [] := by
    have hspace : isStructural ' ' = false := by decide
    simp [structureOf, indentation, hspace]
  simpa [blanks] using run_plain hspaces

theorem Inline.run_chars (i : Inline) :
    run .content i.chars = some (.content, tokensOfAll i.nodes) := by
  cases i with
  | text s =>
      rw [Inline.nodes_text, tokensOfAll_map_char]
      exact run_plain (structureOf_escapeText s.toList)
  | copyrightSign => decide
  | expression e => exact e.run_chars

theorem run_inlineChars (content : List Inline) :
    run .content (inlineChars content) =
      some (.content, tokensOfAll (content.flatMap Inline.nodes)) := by
  induction content with
  | nil => rfl
  | cons i content ih =>
      rw [List.flatMap_cons, tokensOfAll_append]
      exact run_append i.run_chars ih

/-- Whether markup can read a part: a name must be one that tags and attributes can have. -/
def Part.isReadable : Part → Bool
  | name s => isName s.toList
  | text _ => true
  | expression _ => true

/-- Markup can read every part. -/
def Readable (ps : List Part) : Prop :=
  ∀ p ∈ ps, p.isReadable = true

/-- The name that a part is. -/
def Part.name? : Part → Option String
  | name s => some s
  | text _ => none
  | expression _ => none

theorem readable_of_names {ps : List Part} {names : List String}
    (hps : ps.filterMap Part.name? = names) (h : ∀ s ∈ names, isName s.toList = true) :
    Readable ps := by
  intro p hp
  cases p with
  | name s =>
      apply h s
      rw [← hps]
      exact List.mem_filterMap.mpr ⟨.name s, hp, rfl⟩
  | text s => rfl
  | expression e => rfl

theorem Readable.append {ps qs : List Part} (hps : Readable ps) (hqs : Readable qs) :
    Readable (ps ++ qs) :=
  List.forall_mem_append.mpr ⟨hps, hqs⟩

theorem Readable.of_append {ps qs : List Part} (h : Readable (ps ++ qs)) :
    Readable ps ∧ Readable qs :=
  List.forall_mem_append.mp h

theorem Readable.of_tagParts {tag : String} {attributes : List Attribute}
    (h : Readable (tagParts tag attributes)) :
    isName tag.toList = true ∧ ∀ a ∈ attributes, isName a.name.toList = true := by
  constructor
  · exact h (.name tag) List.mem_cons_self
  · intro a ha
    apply h (.name a.name)
    exact List.mem_cons_of_mem _ (List.mem_flatMap.mpr ⟨a, ha, List.mem_cons_self⟩)

mutual

/-- The lines of an element read as its nodes. -/
theorem Element.run_lines (level : ℕ) (e : Element) (h : Readable e.parts) :
    run .content (joinLines (e.lines level)) = some (.content, tokensOfAll (e.nodes level)) := by
  have hblanks := run_blanks level
  cases e with
  | line content =>
      rw [Element.nodes, tokensOfAll_append]
      simpa [Element.lines, joinLines] using run_append hblanks (run_inlineChars content)
  | inline tag attributes content =>
      obtain ⟨htag, has⟩ := h.of_append.1.of_tagParts
      have hcontent := run_append (run_openTag htag has) (run_inlineChars content)
      have helement := run_append hcontent (run_closeTag htag)
      rw [Element.nodes, tokensOfAll_append]
      simpa [Element.lines, joinLines, tokensOfAll, Node.tokens, rawTag] using
        run_append hblanks helement
  | void tag attributes =>
      obtain ⟨htag, has⟩ := Readable.of_tagParts h
      rw [Element.nodes, tokensOfAll_append]
      simpa [Element.lines, joinLines, tokensOfAll, Node.tokens] using
        run_append hblanks (run_voidTag htag has)
  | block tag attributes children =>
      obtain ⟨htag, has⟩ := h.of_append.1.of_tagParts
      have hchildren := run_linesBelow (level + 1) children h.of_append.2
      have hbreak : run .content ['\n'] = some (.content, [.char '\n']) := rfl
      have hclose := run_append hbreak (run_append hblanks (run_closeTag htag))
      have helement := run_append (run_openTag htag has) (run_append hchildren hclose)
      rw [Element.nodes, tokensOfAll_append]
      simpa [Element.lines, joinLines_eq_append_flatMap, tokensOfAll, Node.tokens, rawTag] using
        run_append hblanks helement

/-- The lines of elements, each behind a line break, read as the nodes of the elements. -/
theorem run_linesBelow (level : ℕ) (es : List Element) (h : Readable (partsOfAll es)) :
    run .content ((linesOfAll level es).flatMap ('\n' :: ·)) =
      some (.content, tokensOfAll (nodesBelow level es)) := by
  cases es with
  | nil => rfl
  | cons e es =>
      have hfirst := e.run_lines level h.of_append.1
      have hrest := run_linesBelow level es h.of_append.2
      have hbreak : run .content ['\n'] = some (.content, [.char '\n']) := rfl
      rw [linesOfAll, List.flatMap_append, e.flatMap_lines]
      simpa [nodesBelow, tokensOfAll, Node.tokens] using
        run_append hbreak (run_append hfirst hrest)

end

/-- A printed element reads as the nodes of the element. -/
theorem Element.read_lines (level : ℕ) (e : Element) (h : Readable e.parts) :
    read (joinLines (e.lines level)) = some (e.nodes level) :=
  read_of_run (e.run_lines level h)

/-! ## What a tree holds -/

mutual

/-- A node, with the nodes below it in the order of their text. -/
def Node.preorder : Node → List Node
  | .element t children => .element t children :: preorderOfAll children
  | n => [n]

/-- The nodes with all below them. -/
def preorderOfAll : List Node → List Node
  | [] => []
  | n :: ns => n.preorder ++ preorderOfAll ns

end

section Collect

variable {α : Type}

/-- What `f` finds in the nodes and below them. -/
def collect (f : Node → List α) (ns : List Node) : List α :=
  (preorderOfAll ns).flatMap f

variable {f : Node → List α}

theorem collect_cons (n : Node) (ns : List Node) :
    collect f (n :: ns) = collect f [n] ++ collect f ns := by
  simp [collect, preorderOfAll]

theorem collect_append (ns ms : List Node) :
    collect f (ns ++ ms) = collect f ns ++ collect f ms := by
  induction ns with
  | nil => rfl
  | cons n ns ih => rw [List.cons_append, collect_cons, ih, collect_cons n ns, List.append_assoc]

theorem collect_void (t : RawTag) : collect f [.void t] = f (.void t) := by
  simp [collect, preorderOfAll, Node.preorder]

theorem collect_element (t : RawTag) (children : List Node) :
    collect f [.element t children] = f (.element t children) ++ collect f children := by
  simp [collect, preorderOfAll, Node.preorder]

variable (hf : ∀ c, f (.char c) = [])
include hf

theorem collect_map_char (cs : List Char) : collect f (cs.map Node.char) = [] := by
  induction cs with
  | nil => rfl
  | cons c cs ih =>
      rw [List.map_cons, collect_cons, ih]
      simp [collect, preorderOfAll, Node.preorder, hf]

/-- Inline content adds nothing if neither characters nor expressions do. -/
theorem collect_inlineNodes (hexpression : ∀ body, f (.expression body) = [])
    (content : List Inline) : collect f (content.flatMap Inline.nodes) = [] := by
  induction content with
  | nil => rfl
  | cons i content ih =>
      rw [List.flatMap_cons, collect_append, ih, List.append_nil]
      cases i with
      | text s => exact collect_map_char hf _
      | copyrightSign => exact collect_map_char hf _
      | expression e => simp [Inline.nodes_expression, collect, preorderOfAll, Node.preorder, hexpression]

theorem collect_blanks_append (level : ℕ) (ns : List Node) :
    collect f (blanks level ++ ns) = collect f ns := by
  rw [collect_append, blanks, collect_map_char hf, List.nil_append]

theorem collect_nodesBelow (level : ℕ) (es : List Element) :
    collect f (nodesBelow level es) = es.flatMap fun e => collect f (e.nodes level) := by
  induction es with
  | nil => rfl
  | cons e es ih =>
      have hbreak : collect f [.char '\n'] = [] := collect_map_char hf ['\n']
      rw [nodesBelow, List.cons_append, collect_cons, hbreak, List.nil_append, collect_append, ih,
        List.flatMap_cons]

theorem collect_nodes_void (level : ℕ) (tag : String) (attributes : List Attribute) :
    collect f ((Element.void tag attributes).nodes level) = f (.void (rawTag tag attributes)) := by
  rw [Element.nodes, collect_blanks_append hf, collect_void]

theorem collect_nodes_inline (level : ℕ) (tag : String) (attributes : List Attribute)
    (content : List Inline) :
    collect f ((Element.inline tag attributes content).nodes level) =
      f (.element (rawTag tag attributes) (content.flatMap Inline.nodes)) ++
        collect f (content.flatMap Inline.nodes) := by
  rw [Element.nodes, collect_blanks_append hf, collect_element]

/-- Of what stands between the tags of a block, only the children count. -/
theorem collect_children (level : ℕ) (children : List Element) :
    collect f (nodesBelow (level + 1) children ++ .char '\n' :: blanks level) =
      children.flatMap fun e => collect f (e.nodes (level + 1)) := by
  have hend : collect f (.char '\n' :: blanks level) = [] :=
    collect_map_char hf ('\n' :: indentation level)
  rw [collect_append, collect_nodesBelow hf, hend, List.append_nil]

theorem collect_nodes_block (level : ℕ) (tag : String) (attributes : List Attribute)
    (children : List Element) :
    collect f ((Element.block tag attributes children).nodes level) =
      f (.element (rawTag tag attributes)
          (nodesBelow (level + 1) children ++ .char '\n' :: blanks level)) ++
        children.flatMap fun e => collect f (e.nodes (level + 1)) := by
  rw [Element.nodes, collect_blanks_append hf, collect_element, collect_children hf]

end Collect

/-! ## Expressions -/

/-- The expressions among the values of a tag. -/
def RawTag.expressions (t : RawTag) : List (List Char) :=
  t.attributes.flatMap fun a => match a.2 with
    | .quoted _ => []
    | .braced body => [body]

/-- The expressions of a node on its own. -/
def Node.expressions : Node → List (List Char)
  | .char _ => []
  | .expression body => [body]
  | .void t => t.expressions
  | .element t _ => t.expressions

/-- The expressions in the nodes and below them. -/
def expressionsIn (ns : List Node) : List (List Char) :=
  collect Node.expressions ns

/-- The characters of a part that is an expression. -/
def Part.expressions : Part → List (List Char)
  | name _ => []
  | text _ => []
  | expression e => [e.body]

theorem expressions_rawTag (tag : String) (attributes : List Attribute) :
    (rawTag tag attributes).expressions =
      (tagParts tag attributes).flatMap Part.expressions := by
  induction attributes with
  | nil => rfl
  | cons a as ih =>
      have hattribute : (rawTag tag (a :: as)).expressions =
          a.parts.flatMap Part.expressions ++ (rawTag tag as).expressions := by
        obtain ⟨name, value⟩ := a
        cases value <;> rfl
      rw [hattribute, ih]
      simp [tagParts, Part.expressions]

theorem Node.expressions_char (c : Char) : (Node.char c).expressions = [] := rfl

theorem Inline.expressionsIn_nodes (i : Inline) :
    expressionsIn i.nodes = i.parts.flatMap Part.expressions := by
  cases i with
  | text s => exact collect_map_char Node.expressions_char _
  | copyrightSign => rfl
  | expression e => rfl

theorem expressionsIn_inlineNodes (content : List Inline) :
    expressionsIn (content.flatMap Inline.nodes) =
      (content.flatMap Inline.parts).flatMap Part.expressions := by
  induction content with
  | nil => rfl
  | cons i content ih =>
      rw [List.flatMap_cons, List.flatMap_cons, List.flatMap_append, ← ih, ← i.expressionsIn_nodes]
      exact collect_append _ _

mutual

/-- The expressions in the nodes of an element are those of the element: no text adds one. -/
theorem Element.expressionsIn_nodes (level : ℕ) (e : Element) :
    expressionsIn (e.nodes level) = e.parts.flatMap Part.expressions := by
  rw [expressionsIn]
  cases e with
  | line content =>
      rw [Element.nodes, collect_blanks_append Node.expressions_char]
      exact expressionsIn_inlineNodes content
  | inline tag attributes content =>
      rw [collect_nodes_inline Node.expressions_char, Element.parts, List.flatMap_append,
        ← expressions_rawTag, ← expressionsIn_inlineNodes]
      rfl
  | void tag attributes =>
      rw [collect_nodes_void Node.expressions_char, Element.parts, ← expressions_rawTag]
      rfl
  | block tag attributes children =>
      have hchildren := expressionsIn_children (level + 1) children
      rw [collect_nodes_block Node.expressions_char, hchildren, Element.parts,
        List.flatMap_append, ← expressions_rawTag]
      rfl

/-- The same for elements one after the other. -/
theorem expressionsIn_children (level : ℕ) (es : List Element) :
    es.flatMap (fun e => collect Node.expressions (e.nodes level)) =
      (partsOfAll es).flatMap Part.expressions := by
  cases es with
  | nil => rfl
  | cons e es =>
      have hfirst := e.expressionsIn_nodes level
      have hrest := expressionsIn_children level es
      rw [expressionsIn] at hfirst
      rw [List.flatMap_cons, hfirst, hrest, partsOfAll, List.flatMap_append]

end

end Markup
end DesignPages
