import DesignPages.Frame.Extract
import DesignPages.Proofs.Design.Position

/-!
# Where the texts of a frame stand

Frames are extracted from a design, and the texts of every frame are collected anew, each time from
the root of the frame down.  This module puts both in terms of the positions in the design: the frames
are those at the positions of frame layers, in order, and the texts of a frame are the lines of its
text layers, in order.

The texts of a frame below another one are therefore a piece of the texts of that one.  The piece
begins behind the lines of the layers before the frame, and the pieces of two frames of which neither
is below the other stand apart, in the order of the frames.
-/

namespace DesignPages

/-- Whether the layer is a text, with characters or without any. -/
def Layer.isText (l : Layer) : Bool :=
  match l.kind with
  | .text _ => true
  | _ => false

/-- Only texts have lines. -/
theorem Layer.lines_eq_nil {l : Layer} (h : l.isText = false) : l.lines = [] := by
  have hnone : l.characters? = none := by
    rw [characters?]
    cases hkind : l.kind with
    | text c => simp [isText, hkind] at h
    | _ => rfl
  rw [lines, hnone]

namespace Design

open Position (Precedes)

/-! ## The layers of a kind -/

/-- The positions are those of the layers with a property, in their order. -/
structure Lists (d : Design) (P : Layer → Bool) (ps : List Position) : Prop where
  sorted : ps.Pairwise Precedes
  mem_iff : ∀ p, p ∈ ps ↔ ∃ t, d.at? p = some t ∧ P t.value = true

/-- Whether there is a layer with a property at a position. -/
def holdsAt (d : Design) (P : Layer → Bool) (p : Position) : Bool :=
  (d.at? p).any fun t => P t.value

variable {d f g : Design} {P : Layer → Bool}

theorem holdsAt_iff {p : Position} :
    d.holdsAt P p = true ↔ ∃ t, d.at? p = some t ∧ P t.value = true := by
  rw [holdsAt, Option.any_eq_true]

theorem lists_filter (d : Design) (P : Layer → Bool) :
    d.Lists P (d.positions.filter (d.holdsAt P)) := by
  refine ⟨d.positions_pairwise.filter _, fun p => ?_⟩
  rw [List.mem_filter, Tree.mem_positions_iff, ← holdsAt_iff, and_iff_right_iff_imp]
  intro h
  obtain ⟨t, ht, -⟩ := holdsAt_iff.mp h
  rw [ht]
  rfl

/-- The frames are the trees at the positions of frame layers. -/
theorem map_at?_frames (d : Design) :
    (d.positions.filter (d.holdsAt Layer.isFrame)).map d.at? = d.frames.map some := by
  have hall := congrArg (List.filter fun o => o.any fun t => t.value.isFrame) d.map_at?_positions
  rw [List.filter_map, List.filter_map] at hall
  exact hall

/-! ## Lines by position -/

/-- The lines of the layer at a position. -/
def linesAt (d : Design) (p : Position) : List String :=
  (d.at? p).elim [] fun t => t.value.lines

/-- The lines of the layers before a place. -/
def textsBefore (d : Design) (q : Position) : List String :=
  (d.positionsBefore q).flatMap d.linesAt

/-- The lines of the layers behind a place and everything below it. -/
def textsBehind (d : Design) (q : Position) : List String :=
  (d.positionsBehind q).flatMap d.linesAt

theorem texts_eq_flatMap (d : Design) : d.texts = d.positions.flatMap d.linesAt := by
  calc d.texts
      = d.subtrees.flatMap fun t => t.value.lines := by rw [texts, Tree.values, List.flatMap_map]
    _ = (d.subtrees.map some).flatMap fun o => o.elim [] fun t => t.value.lines := by
        rw [List.flatMap_map]
        rfl
    _ = d.positions.flatMap d.linesAt := by
        rw [← d.map_at?_positions, List.flatMap_map]
        rfl

/-- Layers that are no texts add nothing. -/
theorem flatMap_linesAt_filter (d : Design) (ps : List Position) :
    (ps.filter (d.holdsAt Layer.isText)).flatMap d.linesAt = ps.flatMap d.linesAt := by
  induction ps with
  | nil => rfl
  | cons p ps ih =>
      rw [List.flatMap_cons, ← ih]
      by_cases hp : d.holdsAt Layer.isText p = true
      · rw [List.filter_cons_of_pos hp, List.flatMap_cons]
      · have hlines : d.linesAt p = [] := by
          rw [linesAt]
          cases ht : d.at? p with
          | none => rfl
          | some t => exact Layer.lines_eq_nil (by simpa [holdsAt, ht] using hp)
        rw [List.filter_cons_of_neg hp, hlines, List.nil_append]

theorem exists_texts_eq (d : Design) :
    ∃ qs, d.Lists Layer.isText qs ∧ d.texts = qs.flatMap d.linesAt :=
  ⟨_, d.lists_filter Layer.isText, by rw [flatMap_linesAt_filter, texts_eq_flatMap]⟩

/-- The entries are the facts about the designs at the positions of frame layers. -/
theorem forall₂_extract (d : Design) :
    List.Forall₂ (fun p e => ∃ f : Design, d.at? p = some f ∧ e = f.facts)
      (d.positions.filter (d.holdsAt Layer.isFrame)) d.extract := by
  have hframes : List.Forall₂ (fun p f => d.at? p = some f)
      (d.positions.filter (d.holdsAt Layer.isFrame)) d.frames := by
    rw [← List.forall₂_map_left_iff (R := fun o f => o = some f), map_at?_frames,
      List.forall₂_map_left_iff, List.forall₂_same]
    exact fun f _ => rfl
  rw [extract, List.forall₂_map_right_iff]
  exact hframes.imp fun p f hf => ⟨f, hf, rfl⟩

/-! ## Segments -/

variable {q q' : Position}

/-- The lines of a place and everything below it, by their positions in the whole design. -/
theorem flatMap_linesAt_append (h : f.at? q = some g) :
    (g.positions.map (q ++ ·)).flatMap f.linesAt = g.texts := by
  have hlines (p : Position) : f.linesAt (q ++ p) = g.linesAt p := by
    rw [linesAt, Tree.at?_append, h]
    rfl
  rw [texts_eq_flatMap, List.flatMap_map]
  exact List.flatMap_congr fun p _ => hlines p

/-- The texts of what is below a place are a segment of the texts of the whole. -/
theorem texts_eq_append (h : f.at? q = some g) :
    f.texts = f.textsBefore q ++ g.texts ++ f.textsBehind q := by
  rw [← flatMap_linesAt_append h, texts_eq_flatMap, Tree.positions_eq_append h,
    List.flatMap_append, List.flatMap_append]
  rfl

/-- Of two places of which neither is below the other, the segment of the first ends before that of
the second begins. -/
theorem textsBefore_append_prefix (h : f.at? q = some g) (hq : Precedes q q')
    (hapart : ¬q <+: q') : f.textsBefore q ++ g.texts <+: f.textsBefore q' := by
  obtain ⟨rest, hrest⟩ := Tree.positionsBefore_prefix h hq hapart
  refine ⟨rest.flatMap f.linesAt, ?_⟩
  rw [textsBefore, textsBefore, ← hrest, List.flatMap_append, List.flatMap_append,
    flatMap_linesAt_append h]

/-- A design is extracted into one entry for each frame layer, in order, and the texts of an entry are
the lines of the text layers of the frame, in order.  Below every place of the design, the texts of a
place further down are a segment; the segments of two places of which neither is below the other stand
apart and in order; and where there are no texts, there are none further down. -/
theorem extract_texts_segments (d : Design) :
    (∃ ps, d.Lists Layer.isFrame ps ∧
      List.Forall₂ (fun p e => ∃ f : Design, d.at? p = some f ∧ e = f.facts ∧
        ∃ qs, f.Lists Layer.isText qs ∧ e.texts = qs.flatMap f.linesAt) ps d.extract) ∧
    ∀ (p : Position) (f : Design), d.at? p = some f →
      (∀ (q : Position) (g : Design), d.at? (p ++ q) = some g →
        f.texts = f.textsBefore q ++ g.texts ++ f.textsBehind q) ∧
      (∀ (q q' : Position) (g g' : Design),
        d.at? (p ++ q) = some g → d.at? (p ++ q') = some g' →
        Precedes (p ++ q) (p ++ q') → ¬q <+: q' →
        f.textsBefore q ++ g.texts <+: f.textsBefore q') ∧
      (f.texts = [] → ∀ (q : Position) (g : Design), d.at? (p ++ q) = some g → g.texts = []) := by
  refine ⟨⟨_, d.lists_filter _, ?_⟩, fun p f hf => ?_⟩
  · refine d.forall₂_extract.imp ?_
    rintro p e ⟨f, hf, rfl⟩
    exact ⟨f, hf, rfl, f.exists_texts_eq⟩
  · have hbelow (q : Position) : d.at? (p ++ q) = f.at? q := by
      rw [Tree.at?_append, hf]
      rfl
    simp only [hbelow]
    refine ⟨fun q g hg => texts_eq_append hg, ?_, ?_⟩
    · intro q q' g g' hg _ hq hapart
      exact textsBefore_append_prefix hg ((Position.precedes_append_iff p).mp hq) hapart
    · intro hnil q g hg
      have hsplit := texts_eq_append hg
      rw [hnil] at hsplit
      exact (List.append_eq_nil_iff.mp (List.append_eq_nil_iff.mp hsplit.symm).1).2

/-- A menu with two entries. -/
def sampleMenu : Design :=
  .node (.frame "2:1" "Menu") [.node (.text "2:2" "Home") [], .node (.text "2:3" "Shop") []]

/-- A frame without texts that holds another one. -/
def sampleGap : Design :=
  .node (.frame "3" "Gap") [.node (.frame "3:1" "Inner gap") []]

/-- A footer with one line. -/
def sampleFooter : Design :=
  .node (.frame "4:1" "Footer") [.node (.text "4:2" "Made by Acme") []]

/-- A page with a menu in a group, a gap, and a footer below a text. -/
def samplePage : Design :=
  .node (.frame "0" "Page")
    [.node (.text "1" "Acme\nTools") [],
     .node (.plain "2" "Group" (.other "GROUP")) [sampleMenu],
     sampleGap,
     .node (.text "4" " ") [sampleFooter]]

/-- The menu and the footer are segments of the page that stand apart, and the gap has no texts
anywhere. -/
theorem extract_texts_segments_samplePage :
    (samplePage.at? [1, 0] = some sampleMenu ∧ samplePage.at? [3, 0] = some sampleFooter ∧
      Precedes [1, 0] [3, 0] ∧ ¬[1, 0] <+: [3, 0]) ∧
    samplePage.texts = ["Acme", "Tools"] ++ ["Home", "Shop"] ++ ["Made by Acme"] ∧
    ["Acme", "Tools"] ++ ["Home", "Shop"] <+: samplePage.textsBefore [3, 0] ∧
    texts (.node (.frame "3:1" "Inner gap") []) = [] := by
  have hbefore : samplePage.textsBefore [1, 0] = ["Acme", "Tools"] := by decide +kernel
  have hbehind : samplePage.textsBehind [1, 0] = ["Made by Acme"] := by decide +kernel
  have hmenu : sampleMenu.texts = ["Home", "Shop"] := by decide +kernel
  have hgap : sampleGap.texts = [] := by decide +kernel
  have horder : Precedes [1, 0] [3, 0] ∧ ¬[1, 0] <+: [3, 0] := by decide
  obtain ⟨hsegment, hstand, -⟩ := (extract_texts_segments samplePage).2 [] samplePage rfl
  obtain ⟨-, -, hnone⟩ := (extract_texts_segments samplePage).2 [2] sampleGap rfl
  have htexts := hsegment [1, 0] sampleMenu rfl
  have hfront := hstand [1, 0] [3, 0] sampleMenu sampleFooter rfl rfl horder.1 horder.2
  rw [hbefore, hmenu] at htexts hfront
  rw [hbehind] at htexts
  exact ⟨⟨rfl, rfl, horder⟩, htexts, hfront, hnone hgap [0] _ rfl⟩

end Design
end DesignPages
