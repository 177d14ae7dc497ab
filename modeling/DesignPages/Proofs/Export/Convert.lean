import DesignPages.Export.Convert
import DesignPages.Proofs.Design.Replace

/-!
# Exported trees and designs

The design of an exported tree has a layer at every place of the tree and nowhere else.  Each layer is
the exported one without its hidden paints and effects.  Two exported trees that only differ in hidden
paints and effects therefore have the same design.
-/

namespace DesignPages
namespace Export

/-! ## Paints and effects -/

/-- What becomes of a visible paint: its color and its opacity are taken over, and its type decides
about the kind. -/
structure Paint.Becomes (p : Paint) (t : DesignPages.Paint) : Prop where
  color : t.color = p.color
  opacity : t.opacity = p.opacity
  solid_iff : t.kind = .solid ↔ p.type = "SOLID"
  image_iff : t.kind = .image ↔ p.type = "IMAGE"
  gradient_iff : t.kind = .gradient ↔ "GRADIENT".toList <+: p.type.toList
  other_iff : ∀ label, t.kind = .other label ↔
    p.type ≠ "SOLID" ∧ p.type ≠ "IMAGE" ∧ ¬"GRADIENT".toList <+: p.type.toList ∧ p.type = label

/-- What becomes of a visible effect: its radius is taken over, and its type decides about the kind. -/
structure Effect.Becomes (e : Effect) (t : DesignPages.Effect) : Prop where
  radius : t.radius = e.radius
  dropShadow_iff : t.kind = .dropShadow ↔ e.type = "DROP_SHADOW"
  innerShadow_iff : t.kind = .innerShadow ↔ e.type = "INNER_SHADOW"
  layerBlur_iff : t.kind = .layerBlur ↔ e.type = "LAYER_BLUR"
  backgroundBlur_iff : t.kind = .backgroundBlur ↔ e.type = "BACKGROUND_BLUR"
  other_iff : ∀ label, t.kind = .other label ↔
    e.type ≠ "DROP_SHADOW" ∧ e.type ≠ "INNER_SHADOW" ∧ e.type ≠ "LAYER_BLUR" ∧
      e.type ≠ "BACKGROUND_BLUR" ∧ e.type = label

/-- The paint of a design that a visible paint becomes. -/
def Paint.shown (p : Paint) : DesignPages.Paint :=
  ⟨paintKind p.type, p.color, p.opacity⟩

/-- The effect of a design that a visible effect becomes. -/
def Effect.shown (e : Effect) : DesignPages.Effect :=
  ⟨effectKind e.type, e.radius⟩

theorem filterMap_toPaint? (ps : List Paint) :
    ps.filterMap Paint.toPaint? = (ps.filter Paint.visible).map Paint.shown := by
  rw [← List.filterMap_eq_map, List.filterMap_filter]
  rfl

theorem filterMap_toEffect? (es : List Effect) :
    es.filterMap Effect.toEffect? = (es.filter Effect.visible).map Effect.shown := by
  rw [← List.filterMap_eq_map, List.filterMap_filter]
  rfl

theorem Paint.becomes_shown (p : Paint) : p.Becomes p.shown := by
  obtain ⟨type, visible, color, opacity⟩ := p
  unfold Paint.shown paintKind
  dsimp only
  simp only [List.isPrefixOf_iff_prefix]
  split_ifs with hsolid himage hgradient
  · constructor <;> simp [hsolid]
  · constructor <;> simp [himage]
  · constructor <;> simp_all
  · constructor <;> simp_all

theorem Effect.becomes_shown (e : Effect) : e.Becomes e.shown := by
  obtain ⟨type, visible, radius⟩ := e
  unfold Effect.shown effectKind
  dsimp only
  split_ifs with hdrop hinner hlayer hbackground
  · constructor <;> simp [hdrop]
  · constructor <;> simp [hinner]
  · constructor <;> simp [hlayer]
  · constructor <;> simp [hbackground]
  · constructor <;> simp [hdrop, hinner, hlayer, hbackground]

/-- Of a list of paints the visible ones are left, and each becomes a paint of the design. -/
theorem becomes_filterMap_toPaint? (ps : List Paint) :
    List.Forall₂ Paint.Becomes (ps.filter Paint.visible) (ps.filterMap Paint.toPaint?) := by
  rw [filterMap_toPaint?, List.forall₂_map_right_iff, List.forall₂_same]
  exact fun p _ => p.becomes_shown

theorem becomes_filterMap_toEffect? (es : List Effect) :
    List.Forall₂ Effect.Becomes (es.filter Effect.visible) (es.filterMap Effect.toEffect?) := by
  rw [filterMap_toEffect?, List.forall₂_map_right_iff, List.forall₂_same]
  exact fun e _ => e.becomes_shown

/-! ## Kinds of layers -/

section Kind

variable {type : String} {characters : Option String} {fills : List DesignPages.Paint}

theorem layerKind_eq_frame_iff : layerKind type characters fills = .frame ↔ type = "FRAME" := by
  unfold layerKind
  split_ifs with hframe <;> simp [hframe]

theorem layerKind_eq_text_iff {c : Option String} :
    layerKind type characters fills = .text c ↔ type = "TEXT" ∧ characters = c := by
  unfold layerKind
  split_ifs with hframe htext
  · simp [hframe]
  · simp [htext]
  · simp [htext]
  · simp [htext]

/-- Among layers of other types the visible fills decide. -/
theorem layerKind_eq_image_iff : layerKind type characters fills = .image ↔
    type ≠ "FRAME" ∧ type ≠ "TEXT" ∧ (fills.any fun p => p.kind == .image) = true := by
  unfold layerKind
  split_ifs with hframe htext himage
  · simp [hframe]
  · simp [htext]
  · simp [hframe, htext, himage]
  · simp [himage]

theorem layerKind_eq_other_iff {label : String} : layerKind type characters fills = .other label ↔
    type ≠ "FRAME" ∧ type ≠ "TEXT" ∧ ¬(fills.any fun p => p.kind == .image) = true ∧
      type = label := by
  unfold layerKind
  split_ifs with hframe htext himage
  · simp [hframe]
  · simp [htext]
  · simp [himage]
  · simp [hframe, htext, himage]

end Kind

/-! ## Layers -/

namespace Layer

/-- There is a visible fill with an image. -/
def ShowsImage (l : Layer) : Prop :=
  ∃ p ∈ l.fills, p.visible = true ∧ p.type = "IMAGE"

/-- What becomes of a layer: everything is taken over, but of the paints and effects only the visible
ones.  Its type decides about the kind, and a visible image does so for a layer of another type. -/
structure Becomes (l : Layer) (t : DesignPages.Layer) : Prop where
  id : t.id = l.id
  name : t.name = l.name
  box : t.box = l.box
  strokeWeight : t.strokeWeight = l.strokeWeight
  textStyle : t.textStyle = l.style
  fills : List.Forall₂ Paint.Becomes (l.fills.filter Paint.visible) t.fills
  strokes : List.Forall₂ Paint.Becomes (l.strokes.filter Paint.visible) t.strokes
  effects : List.Forall₂ Effect.Becomes (l.effects.filter Effect.visible) t.effects
  frame_iff : t.kind = .frame ↔ l.type = "FRAME"
  text_iff : ∀ characters, t.kind = .text characters ↔ l.type = "TEXT" ∧ l.characters = characters
  image_iff : t.kind = .image ↔ l.type ≠ "FRAME" ∧ l.type ≠ "TEXT" ∧ l.ShowsImage
  other_iff : ∀ label, t.kind = .other label ↔
    l.type ≠ "FRAME" ∧ l.type ≠ "TEXT" ∧ ¬l.ShowsImage ∧ l.type = label

theorem showsImage_iff (l : Layer) :
    l.ShowsImage ↔ ((l.fills.filterMap Paint.toPaint?).any fun p => p.kind == .image) = true := by
  rw [filterMap_toPaint?, List.any_map, List.any_eq_true]
  constructor
  · rintro ⟨p, hp, hvisible, himage⟩
    exact ⟨p, List.mem_filter.mpr ⟨hp, hvisible⟩,
      beq_iff_eq.mpr (p.becomes_shown.image_iff.mpr himage)⟩
  · rintro ⟨p, hp, himage⟩
    obtain ⟨hmem, hvisible⟩ := List.mem_filter.mp hp
    exact ⟨p, hmem, hvisible, p.becomes_shown.image_iff.mp (beq_iff_eq.mp himage)⟩

/-- Every layer becomes the layer of the design. -/
theorem becomes_toLayer (l : Layer) : l.Becomes l.toLayer where
  id := rfl
  name := rfl
  box := rfl
  strokeWeight := rfl
  textStyle := rfl
  fills := becomes_filterMap_toPaint? l.fills
  strokes := becomes_filterMap_toPaint? l.strokes
  effects := becomes_filterMap_toEffect? l.effects
  frame_iff := layerKind_eq_frame_iff
  text_iff _ := layerKind_eq_text_iff
  image_iff := by
    rw [showsImage_iff]
    exact layerKind_eq_image_iff
  other_iff _ := by
    rw [showsImage_iff]
    exact layerKind_eq_other_iff

/-- The layer without its hidden paints and effects. -/
def visiblePart (l : Layer) : Layer :=
  { l with
    fills := l.fills.filter Paint.visible
    strokes := l.strokes.filter Paint.visible
    effects := l.effects.filter Effect.visible }

theorem toLayer_visiblePart (l : Layer) : l.visiblePart.toLayer = l.toLayer := by
  simp only [toLayer, visiblePart, filterMap_toPaint?, filterMap_toEffect?, List.filter_filter,
    Bool.and_self]

end Layer

/-! ## Trees -/

namespace Node

/-- The exported tree without its hidden paints and effects. -/
def visiblePart (n : Node) : Node :=
  n.map Layer.visiblePart

theorem toDesign_visiblePart (n : Node) : n.visiblePart.toDesign = n.toDesign := by
  have hlayer : Layer.toLayer ∘ Layer.visiblePart = Layer.toLayer :=
    funext Layer.toLayer_visiblePart
  rw [toDesign, visiblePart, Tree.map_map, hlayer, toDesign]

/-- Exported trees that only differ in hidden paints and effects have the same design. -/
theorem toDesign_eq_of_visiblePart_eq {n m : Node} (h : n.visiblePart = m.visiblePart) :
    n.toDesign = m.toDesign := by
  rw [← n.toDesign_visiblePart, h, m.toDesign_visiblePart]

/-- At every place both trees have a layer or neither has, and the one becomes the other. -/
theorem becomes_at? (n : Node) (p : Position) :
    Option.Rel (fun m d => m.value.Becomes d.value) (n.at? p) (n.toDesign.at? p) := by
  rw [toDesign, Tree.at?_map]
  cases n.at? p with
  | none => exact .none
  | some m =>
      refine .some ?_
      rw [Tree.value_map]
      exact m.value.becomes_toLayer

end Node
end Export
end DesignPages
