import DesignPages.Compile
import DesignPages.Proofs.Design.Replace
import DesignPages.Proofs.Frame.Wire
import DesignPages.Proofs.Json.Ensures

/-!
# Measured exports

The boxes and the stroke weights of an export are finite, and so are the boxes and borders of the
frames that are found in it.  This is not so for the channels of colors, which are narrowed to singles
after they were read.
-/

namespace DesignPages

open Json (Decoder)

/-! ## Trees -/

namespace Tree

variable {α : Type}

theorem mem_subtreesAll {u : Tree α} {ts : List (Tree α)} :
    u ∈ subtreesAll ts ↔ ∃ t ∈ ts, u ∈ t.subtrees := by
  induction ts with
  | nil => simp [subtreesAll]
  | cons t ts ih => simp [subtreesAll, ih]

end Tree

/-! ## Layers -/

namespace Export

/-- The lengths of a layer are numbers. -/
structure Layer.IsMeasured (l : Layer) : Prop where
  box : ∀ b ∈ l.box, b.isFinite = true
  strokeWeight : ∀ x ∈ l.strokeWeight, (Number.ofDouble x).isFinite = true

theorem boxRecord_ensures : boxRecord.decoder.Ensures fun b => b.isFinite = true := by
  refine Json.Record.decoder_ensures (by decide) fun f hf => ?_
  simp only [boxRecord, List.mem_cons, List.not_mem_nil, or_false] at hf
  rcases hf with rfl | rfl | rfl | rfl <;>
    exact Json.Field.keeps_of Decoder.double_ensures fun v b hv hb => by
      simp_all [Box.isFinite]

namespace Node

/-- The lengths of all layers of a tree are numbers. -/
def IsMeasured (n : Node) : Prop :=
  ∀ u ∈ n.subtrees, u.value.IsMeasured

theorem isMeasured_node {l : Layer} {ns : List Node} :
    IsMeasured (.node l ns) ↔ l.IsMeasured ∧ ∀ n ∈ ns, IsMeasured n := by
  constructor
  · intro h
    refine ⟨h _ List.mem_cons_self, fun n hn u hu => h u ?_⟩
    exact List.mem_cons_of_mem _ (Tree.mem_subtreesAll.mpr ⟨n, hn, hu⟩)
  · rintro ⟨hl, hns⟩ u hu
    rcases List.mem_cons.mp hu with rfl | hu
    · exact hl
    · obtain ⟨n, hn, hu⟩ := Tree.mem_subtreesAll.mp hu
      exact hns n hn u hu

variable {α : Type} {d : Decoder α} {P : α → Prop}

theorem layerField_keeps {name : String} {put : α → Layer → Layer} (h : d.Ensures P)
    (hput : ∀ v l, P v → l.IsMeasured → (put v l).IsMeasured) :
    (layerField name d put).Keeps IsMeasured := by
  refine Json.Field.keeps_of h fun v n hv hn => ?_
  obtain ⟨l, ns⟩ := n
  rw [isMeasured_node] at hn
  exact isMeasured_node.mpr ⟨hput v l hv hn.1, hn.2⟩

/-- A property of the root layer that is no length does not matter. -/
theorem layerField_keeps_of_same {name : String} {put : α → Layer → Layer}
    (hput : ∀ v l, (put v l).box = l.box ∧ (put v l).strokeWeight = l.strokeWeight) :
    (layerField name d put).Keeps IsMeasured := by
  refine layerField_keeps d.ensures_true fun v l _ hl => ?_
  obtain ⟨hbox, hweight⟩ := hput v l
  exact ⟨by rw [hbox]; exact hl.box, by rw [hweight]; exact hl.strokeWeight⟩

theorem record_ensures {child : Decoder Node} (h : child.Ensures IsMeasured) :
    (record child).decoder.Ensures IsMeasured := by
  have hblank : IsMeasured (record child).blank :=
    isMeasured_node.mpr ⟨⟨by simp [Layer.blank], by simp [Layer.blank]⟩, by simp⟩
  refine Json.Record.decoder_ensures hblank fun f hf => ?_
  simp only [record, List.mem_cons, List.not_mem_nil, or_false] at hf
  rcases hf with rfl | rfl | rfl | rfl | rfl | rfl | rfl | rfl | rfl | rfl | rfl
  · exact layerField_keeps_of_same fun v l => ⟨rfl, rfl⟩
  · exact layerField_keeps_of_same fun v l => ⟨rfl, rfl⟩
  · exact layerField_keeps_of_same fun v l => ⟨rfl, rfl⟩
  · refine Json.Field.keeps_of h.list fun v n hv hn => ?_
    obtain ⟨l, ns⟩ := n
    exact isMeasured_node.mpr ⟨(isMeasured_node.mp hn).1, hv⟩
  · exact layerField_keeps_of_same fun v l => ⟨rfl, rfl⟩
  · exact layerField_keeps boxRecord_ensures.nullable fun v l hv hl => ⟨hv, hl.strokeWeight⟩
  · exact layerField_keeps_of_same fun v l => ⟨rfl, rfl⟩
  · exact layerField_keeps_of_same fun v l => ⟨rfl, rfl⟩
  · exact layerField_keeps Decoder.double_ensures.nullable fun v l hv hl => ⟨hl.box, hv⟩
  · exact layerField_keeps_of_same fun v l => ⟨rfl, rfl⟩
  · exact layerField_keeps_of_same fun v l => ⟨rfl, rfl⟩

theorem decoderBelow_ensures (height : ℕ) : (decoderBelow height).Ensures IsMeasured := by
  induction height with
  | zero => exact fun s o n h => absurd h (by simp [decoderBelow])
  | succ height ih => exact record_ensures ih

theorem decoder_ensures : decoder.Ensures IsMeasured :=
  fun s o n h => decoderBelow_ensures (s.room + 1) s o n h

end Node

/-! ## Files -/

theorem fileRecord_ensures :
    fileRecord.decoder.Ensures fun p => ∀ n ∈ p.2, Node.IsMeasured n := by
  refine Json.Record.decoder_ensures (by simp [fileRecord]) fun f hf => ?_
  simp only [fileRecord, List.mem_cons, List.not_mem_nil, or_false] at hf
  rcases hf with rfl | rfl
  · exact Json.Field.keeps_of (Decoder.ensures_true _) fun v p _ hp => hp
  · exact Json.Field.keeps_of Node.decoder_ensures.nullable fun v p hv _ => hv

theorem orJson_eq_ok {α : Type} {x : Except Json.Fault α} {a : α} :
    orJson x = .ok a ↔ x = .ok a := by
  cases x <;> simp [orJson]

/-- The document of a file comes from a tree in which all lengths are numbers. -/
theorem File.exists_isMeasured {text : String} {file : File} (h : File.read text = .ok file) :
    ∀ d ∈ file.document, ∃ n : Node, n.IsMeasured ∧ d = n.toDesign := by
  obtain ⟨v, -, h⟩ := Json.exists_of_bind_eq_ok h
  intro d hd
  unfold File.ofJson at h
  split at h
  · obtain rfl := (Except.ok.inj h)
    exact absurd hd (by simp)
  · split_ifs at h
    · obtain ⟨p, hp, h⟩ := Json.exists_of_bind_eq_ok h
      have hnode := fileRecord_ensures _ _ _ (orJson_eq_ok.mp hp)
      obtain rfl := (Except.ok.inj h)
      obtain ⟨n, hn, rfl⟩ := Option.map_eq_some_iff.mp (Option.mem_def.mp hd)
      exact ⟨n, hnode n hn, rfl⟩
    · obtain ⟨e, he, h⟩ := Json.exists_of_bind_eq_ok h
      obtain ⟨n, hn, rfl⟩ := Json.exists_of_map_eq_ok (orJson_eq_ok.mp he)
      obtain rfl := (Except.ok.inj h)
      obtain rfl := Option.some_inj.mp (Option.mem_def.mp hd)
      exact ⟨n, Node.decoder_ensures _ _ _ hn, rfl⟩
  · exact absurd h (by simp)

end Export

/-! ## Frames -/

theorem Layer.border?_toLayer {l : Export.Layer} (h : l.IsMeasured) :
    ∀ x ∈ l.toLayer.border?, (Number.ofDouble x).isFinite = true := by
  intro x hx
  unfold Layer.border? at hx
  split_ifs at hx
  · exact absurd hx (by simp)
  · exact h.strokeWeight x (Option.filter_eq_some_iff.mp hx).1

theorem Export.Node.isMeasured_of_mem_extract {n : Export.Node} (h : n.IsMeasured) {f : Frame}
    (hf : f ∈ n.toDesign.extract) : f.IsMeasured := by
  obtain ⟨d, hd, rfl⟩ := List.mem_map.mp hf
  have hsub := (List.mem_filter.mp hd).1
  rw [Export.Node.toDesign, Tree.subtrees_map] at hsub
  obtain ⟨u, hu, rfl⟩ := List.mem_map.mp hsub
  have hlayer := h u hu
  constructor
  · rw [Option.all_eq_true]
    intro b hb
    rw [Design.facts, Tree.value_map] at hb
    exact hlayer.box b hb
  · rw [StyleTokens.hasFiniteBorder, Option.all_eq_true]
    intro x hx
    rw [Design.facts, Tree.value_map] at hx
    exact Layer.border?_toLayer hlayer x hx

/-- The lengths of all frames that are analyzed in an export are numbers. -/
theorem Design.isMeasured_of_mem_analyze {options : Options} {text : String} {file : Export.File}
    (h : Export.File.read text = .ok file) {a : AnalyzedFrame}
    (ha : a ∈ Design.analyze options file.document) : a.frame.IsMeasured := by
  cases hd : file.document with
  | none =>
      rw [hd] at ha
      exact absurd ha List.not_mem_nil
  | some d =>
      rw [hd] at ha
      obtain ⟨n, hn, rfl⟩ := Export.File.exists_isMeasured h d hd
      obtain ⟨f, hf, rfl⟩ := List.mem_map.mp ha
      exact Export.Node.isMeasured_of_mem_extract hn hf

end DesignPages
