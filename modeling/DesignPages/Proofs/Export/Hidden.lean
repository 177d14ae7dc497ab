import DesignPages.Proofs.Export.Content
import DesignPages.Proofs.Export.Convert
import DesignPages.Proofs.Export.Forms
import DesignPages.Proofs.Json.Replaced
import Mathlib.Logic.Relation

/-!
# Hidden paints and effects of exports

A hidden paint or effect may be put into an export, or taken out of it, wherever it stands: the file is
read the same, or refused with the same error, and the same is compiled from it.
-/

namespace DesignPages
namespace Export

open Json (Decoder Outline Record Setting)

/-! ## Values -/

/-- The value is read as a hidden paint. -/
def IsHiddenPaint (v : Json) : Prop :=
  ∃ p : Paint, Json.fromWhole Paint.record.decoder v = .ok p ∧ p.visible = false

/-- The value is read as a hidden effect. -/
def IsHiddenEffect (v : Json) : Prop :=
  ∃ e : Effect, Json.fromWhole Effect.record.decoder v = .ok e ∧ e.visible = false

/-- The names of the fields of a node in the order of their declaration. -/
def Node.fieldNames : List String :=
  (Node.record Node.decoder).fields.map Json.Field.name

/-- The second value is a node like the first one that has one hidden paint or effect more, at some
layer of its tree. -/
inductive Node.AddsHidden : Json → Json → Prop
  | fill {p vs ws x y : Json} (hp : IsHiddenPaint p) (hvs : Json.Inserted p vs ws)
      (hxy : Json.Replaced Node.fieldNames "fills" vs ws x y) : AddsHidden x y
  | stroke {p vs ws x y : Json} (hp : IsHiddenPaint p) (hvs : Json.Inserted p vs ws)
      (hxy : Json.Replaced Node.fieldNames "strokes" vs ws x y) : AddsHidden x y
  | effect {e vs ws x y : Json} (he : IsHiddenEffect e) (hvs : Json.Inserted e vs ws)
      (hxy : Json.Replaced Node.fieldNames "effects" vs ws x y) : AddsHidden x y
  | child {v w x y : Json} (h : AddsHidden v w) (front back : List Json)
      (hxy : Json.Replaced Node.fieldNames "children" (.arr (front ++ v :: back))
        (.arr (front ++ w :: back)) x y) : AddsHidden x y

/-- The second value is an export like the first one that has one hidden paint or effect more.  The
node is the export itself or stands under `document`. -/
inductive File.AddsHidden : Json → Json → Prop
  | node {x y : Json} (h : Node.AddsHidden x y) : AddsHidden x y
  | document {v w x y : Json} (h : Node.AddsHidden v w)
      (hxy : Json.Replaced (fileRecord.fields.map Json.Field.name) "document" v w x y) :
      AddsHidden x y

/-! ## Records -/

namespace Node

section Layer

variable {α : Type} {name : String} {d : Decoder α} {put : α → Layer → Layer} {p : α → α}

theorem layerField_preserves
    (hput : ∀ v l, (put v l).visiblePart = put (p v) l.visiblePart) :
    (layerField name d put).Preserves visiblePart := by
  refine Json.Field.preserves_of fun v n m hnm => ?_
  obtain ⟨l, ns⟩ := n
  obtain ⟨l', ms⟩ := m
  obtain ⟨hl, hns⟩ := Tree.node.inj hnm
  refine congrArg₂ Tree.node ?_ hns
  rw [Tree.value, Tree.value, hput, hput, hl]

theorem layerField_agreeOn {s : Setting} {o o' : Outline}
    (hput : ∀ v l, (put v l).visiblePart = put (p v) l.visiblePart)
    (h : (d s o).map p = (d s o').map p) :
    (layerField name d put).AgreeOn visiblePart s o o' := by
  refine Json.Field.agreeOn_of h fun v w n hvw => ?_
  obtain ⟨l, ns⟩ := n
  refine congrArg (fun m => Tree.node m _) ?_
  rw [hput, hput, hvw]

end Layer

variable {child : Decoder Node}

/-- What the visible part of a node is only depends on the visible parts of what is read into it. -/
theorem record_preserves (child : Decoder Node) :
    ∀ f ∈ (record child).fields, f.Preserves visiblePart := by
  have hchildren : (Json.Field.of "children" .defaulted (Decoder.list child) fun v (t : Node) =>
      .node t.value v).Preserves visiblePart := by
    refine Json.Field.preserves_of fun v n m hnm => ?_
    obtain ⟨l, ns⟩ := n
    obtain ⟨l', ms⟩ := m
    exact congrArg (fun l => Tree.node l _) (Tree.node.inj hnm).1
  simp only [record, List.forall_mem_cons]
  exact ⟨layerField_preserves (p := id) fun _ _ => rfl,
    layerField_preserves (p := id) fun _ _ => rfl,
    layerField_preserves (p := id) fun _ _ => rfl,
    hchildren,
    layerField_preserves (p := id) fun _ _ => rfl,
    layerField_preserves (p := id) fun _ _ => rfl,
    layerField_preserves (p := List.filter Paint.visible) fun _ _ => rfl,
    layerField_preserves (p := List.filter Paint.visible) fun _ _ => rfl,
    layerField_preserves (p := id) fun _ _ => rfl,
    layerField_preserves (p := List.filter Effect.visible) fun _ _ => rfl,
    layerField_preserves (p := id) fun _ _ => rfl, by simp⟩

theorem fieldNames_nodup : fieldNames.Nodup := by
  decide

/-- Nodes that only differ in one field look the same if this field is read the same. -/
theorem record_replaced {f : Json.Field Node} (hf : f ∈ (record child).fields) {v w x y : Json}
    (h : Json.Replaced fieldNames f.name v w x y) {s : Setting}
    (hagree : ∀ t, s.inside = .ok t → f.AgreeOn visiblePart t (.ofJson v) (.ofJson w)) :
    ((record child).decoder s (.ofJson x)).map visiblePart =
      ((record child).decoder s (.ofJson y)).map visiblePart := by
  have hnodup : ((record child).fields.map Json.Field.name).Nodup := fieldNames_nodup
  refine Record.decoder_replaced (record_preserves child) h fun g hg hname => ?_
  rw [List.inj_on_of_nodup_map hnodup hg hf hname]
  exact hagree

/-- An entry that is not shown may be inserted into one of the lists of a layer. -/
theorem record_inserted {α : Type} {name : String} {d : Decoder α}
    {put : List α → Layer → Layer} {keep : α → Bool}
    (hf : layerField name (Decoder.list d) put ∈ (record child).fields)
    (hput : ∀ v l, (put v l).visiblePart = put (v.filter keep) l.visiblePart)
    (hd : ∀ k, Decoder.AgreeBelow k d d) {v vs ws x y : Json}
    (hv : ∃ a, Json.fromWhole d v = .ok a ∧ keep a = false) (hvs : Json.Inserted v vs ws)
    (hxy : Json.Replaced fieldNames name vs ws x y) {s : Setting} (hs : s.Within y) :
    ((record child).decoder s (.ofJson x)).map visiblePart =
      ((record child).decoder s (.ofJson y)).map visiblePart := by
  obtain ⟨a, ha, hkeep⟩ := hv
  refine record_replaced hf hxy fun t ht => layerField_agreeOn hput ?_
  exact Decoder.list_inserted hd ha hkeep hvs (hs.inside ht hxy.depth_lt)

/-- A node below a layer may be replaced by one that looks the same. -/
theorem record_child {v w x y : Json} (front back : List Json)
    (hxy : Json.Replaced fieldNames "children" (.arr (front ++ v :: back))
      (.arr (front ++ w :: back)) x y) {s : Setting} (hs : s.Within y)
    (hchild : ∀ t : Setting, t.Within w →
      (child t (.ofJson v)).map visiblePart = (child t (.ofJson w)).map visiblePart) :
    ((record child).decoder s (.ofJson x)).map visiblePart =
      ((record child).decoder s (.ofJson y)).map visiblePart := by
  refine record_replaced (List.mem_of_getElem? (i := 3) rfl) hxy fun t ht => ?_
  refine Json.Field.agreeOn_of (p := List.map visiblePart) ?_ fun ns ms n h => ?_
  · simp only [Outline.ofJson, Outline.ofItems_append, Outline.ofItems]
    refine Decoder.list_congr fun t' ht' => Decoder.items_replaced (hchild t' ?_) _ _
    exact (hs.inside ht hxy.depth_lt).inside ht' (Outline.depth_lt_of_item front back w)
  · obtain ⟨l, _⟩ := n
    refine congrArg (Tree.node l.visiblePart) ?_
    rw [Tree.mapAll_eq_map, Tree.mapAll_eq_map]
    exact h

/-- Every stage of the reader of nodes reads the same, up to what is hidden. -/
theorem AddsHidden.decoderBelow_eq {x y : Json} (h : AddsHidden x y) (height : ℕ) {s : Setting}
    (hs : s.Within y) :
    (decoderBelow height s (.ofJson x)).map visiblePart =
      (decoderBelow height s (.ofJson y)).map visiblePart := by
  -- The lowest stage refuses everything, so each case is about a stage that reads a record.
  induction h generalizing height s with
  | fill hp hvs hxy =>
      obtain _ | height := height
      · rfl
      · exact record_inserted (List.mem_of_getElem? (i := 6) rfl) (fun _ _ => rfl)
          (fun _ => Paint.record_agreeBelow) hp hvs hxy hs
  | stroke hp hvs hxy =>
      obtain _ | height := height
      · rfl
      · exact record_inserted (List.mem_of_getElem? (i := 7) rfl) (fun _ _ => rfl)
          (fun _ => Paint.record_agreeBelow) hp hvs hxy hs
  | effect he hvs hxy =>
      obtain _ | height := height
      · rfl
      · exact record_inserted (List.mem_of_getElem? (i := 9) rfl) (fun _ _ => rfl)
          (fun _ => Effect.record_agreeBelow) he hvs hxy hs
  | child _ front back hxy ih =>
      obtain _ | height := height
      · rfl
      · exact record_child front back hxy hs fun t ht => ih height ht

theorem AddsHidden.decoder_eq {x y : Json} (h : AddsHidden x y) {s : Setting} (hs : s.Within y) :
    (decoder s (.ofJson x)).map visiblePart = (decoder s (.ofJson y)).map visiblePart :=
  h.decoderBelow_eq (s.room + 1) hs

/-- One field of the node differs, and it is no field of a file. -/
theorem AddsHidden.exists_replaced {x y : Json} (h : AddsHidden x y) :
    ∃ name v w, Json.Replaced fieldNames name v w x y ∧
      name ∉ fileRecord.fields.map Json.Field.name ∧
      (Outline.ofJson v).depth ≤ (Outline.ofJson w).depth := by
  induction h with
  | fill _ hvs hxy => exact ⟨_, _, _, hxy, by decide, hvs.depth_le⟩
  | stroke _ hvs hxy => exact ⟨_, _, _, hxy, by decide, hvs.depth_le⟩
  | effect _ hvs hxy => exact ⟨_, _, _, hxy, by decide, hvs.depth_le⟩
  | child _ front back hxy ih =>
      obtain ⟨_, _, _, hinner, -, hdepth⟩ := ih
      refine ⟨_, _, _, hxy, by decide, ?_⟩
      have hle := hinner.depth_le hdepth
      simp only [Outline.ofJson, Outline.depth, Outline.ofItems_append, Outline.depthItems_append,
        Outline.ofItems, Outline.depthItems]
      omega

theorem AddsHidden.depth_le {x y : Json} (h : AddsHidden x y) :
    (Outline.ofJson x).depth ≤ (Outline.ofJson y).depth := by
  obtain ⟨_, _, _, hxy, -, hdepth⟩ := h.exists_replaced
  exact hxy.depth_le hdepth

end Node

/-! ## Files -/

namespace File

/-- What a value holds as it is exported: the name of the file and the tree, each if there is one. -/
def exported (v : Json) : Except ReadError (Option String × Option Node) :=
  match v with
  | .null => .ok (none, none)
  | .obj members =>
    if (Json.member? "document" members).isSome then orJson (Json.fromWhole fileRecord.decoder v)
    else if (Json.member? "type" members).isSome then
      (orJson (Json.fromWhole Node.decoder v)).map fun n => (none, some n)
    else .error (.invalid .neitherForm)
  | v => .error (.invalid (.notAnObject (kindOf v)))

/-- What a text holds as it is exported. -/
def readExported (text : String) : Except ReadError (Option String × Option Node) := do
  exported (← orJson (Json.readWhole text))

/-- The file of an exported one, with the design of its tree. -/
def ofExported (file : Option String × Option Node) : File :=
  ⟨file.1, file.2.map Node.toDesign⟩

/-- The exported file without the hidden paints and effects of its tree. -/
def visiblePart (file : Option String × Option Node) : Option String × Option Node :=
  (file.1, file.2.map Node.visiblePart)

theorem ofExported_visiblePart (file : Option String × Option Node) :
    ofExported (visiblePart file) = ofExported file := by
  obtain ⟨name, document⟩ := file
  cases document with
  | none => rfl
  | some n => exact congrArg (fun d => File.mk name (some d)) n.toDesign_visiblePart

theorem ofJson_eq_exported (v : Json) : ofJson v = (exported v).map ofExported := by
  cases v with
  | obj members =>
      simp only [ofJson, exported]
      split_ifs
      · cases orJson (Json.fromWhole fileRecord.decoder (.obj members)) <;> rfl
      · rw [Node.ofJson]
        cases Json.fromWhole Node.decoder (.obj members) <;> rfl
      · rfl
  | _ => rfl

/-- A file is read from what is exported. -/
theorem read_eq_exported (text : String) : read text = (readExported text).map ofExported := by
  rw [read, readExported, Json.map_bind]
  exact congrArg _ (funext ofJson_eq_exported)

/-- Of what is exported only the visible part is read. -/
theorem read_eq_of_visiblePart {text text' : String}
    (h : (readExported text).map visiblePart = (readExported text').map visiblePart) :
    read text = read text' := by
  have hview (x : Except ReadError (Option String × Option Node)) :
      x.map ofExported = (x.map visiblePart).map ofExported := by
    cases x with
    | error e => rfl
    | ok file => exact congrArg Except.ok (ofExported_visiblePart file).symm
  rw [read_eq_exported, read_eq_exported, hview, h, ← hview]

/-! ## Files with one hidden paint or effect more -/

theorem record_preserves : ∀ f ∈ fileRecord.fields, f.Preserves visiblePart := by
  simp only [fileRecord, List.forall_mem_cons]
  refine ⟨?_, ?_, by simp⟩
  · exact Json.Field.preserves_of fun v f g h => congrArg (Prod.mk v) (Prod.mk.inj h).2
  · exact Json.Field.preserves_of fun v f g h =>
      congrArg (fun name => Prod.mk name _) (Prod.mk.inj h).1

/-- Objects with the same keys look the same if they do so, read as a file and, if there is no
document, read as a node. -/
theorem exported_congr {ms ns : List (String × Json)} (hkeys : ms.map Prod.fst = ns.map Prod.fst)
    (hfile : (Json.fromWhole fileRecord.decoder (.obj ms)).map visiblePart =
      (Json.fromWhole fileRecord.decoder (.obj ns)).map visiblePart)
    (hnode : "document" ∉ ms.map Prod.fst →
      (Json.fromWhole Node.decoder (.obj ms)).map Node.visiblePart =
        (Json.fromWhole Node.decoder (.obj ns)).map Node.visiblePart) :
    (exported (.obj ms)).map visiblePart = (exported (.obj ns)).map visiblePart := by
  have hmember (key : String) : (Json.member? key ns).isSome = (Json.member? key ms).isSome := by
    rw [Bool.eq_iff_iff, Json.isSome_member?_iff, Json.isSome_member?_iff, hkeys]
  have horJson {α β : Type} (q : α → β) (x : Except Json.Fault α) :
      (orJson x).map q = orJson (x.map q) := by
    cases x <;> rfl
  simp only [exported, hmember]
  split_ifs with hdocument htype
  · rw [horJson, horJson, hfile]
  · rw [Json.isSome_member?_iff] at hdocument
    have hview (x : Except Json.Fault Node) :
        ((orJson x).map fun n => (none, some n)).map visiblePart =
          (orJson (x.map Node.visiblePart)).map fun n => ((none : Option String), some n) := by
      cases x <;> rfl
    rw [hview, hview, hnode hdocument]
  · rfl

/-- The document of a file may be replaced by one that looks the same. -/
theorem record_document {v w x y : Json} (h : Node.AddsHidden v w)
    (hxy : Json.Replaced (fileRecord.fields.map Json.Field.name) "document" v w x y) {s : Setting}
    (hs : s.Within y) :
    (fileRecord.decoder s (.ofJson x)).map visiblePart =
      (fileRecord.decoder s (.ofJson y)).map visiblePart := by
  refine Record.decoder_replaced record_preserves hxy fun f hf hname t ht => ?_
  simp only [fileRecord, List.mem_cons, List.not_mem_nil, or_false] at hf
  rcases hf with rfl | rfl
  · exact absurd hname (by decide)
  · refine Json.Field.agreeOn_of (p := Option.map Node.visiblePart) ?_ fun _ _ f hview => ?_
    · obtain ⟨_, _, _, hvw, -⟩ := h.exists_replaced
      exact Decoder.nullable_replaced hvw (h.decoder_eq (hs.inside ht hxy.depth_lt))
    · exact congrArg (Prod.mk f.1) hview

/-- A hidden paint or effect more does not change the visible part. -/
theorem AddsHidden.exported_eq {x y : Json} (h : AddsHidden x y)
    (hdepth : (Outline.ofJson y).depth ≤ Setting.depthLimit) :
    (exported x).map visiblePart = (exported y).map visiblePart := by
  have hs : Setting.Within y ⟨.whole, Setting.depthLimit⟩ := ⟨rfl, le_rfl, hdepth⟩
  cases h with
  | node h =>
      have hnode := h.decoder_eq hs
      obtain ⟨name, v, w, hxy, hname, -⟩ := h.exists_replaced
      cases hxy with
      | element => rfl
      | member front back =>
          refine exported_congr (by simp) ?_ fun _ => hnode
          refine Record.decoder_replaced record_preserves (.member front back) fun f hf hf' => ?_
          exact absurd (hf' ▸ List.mem_map_of_mem hf) hname
  | document h hxy =>
      have hfile := record_document h hxy hs
      cases hxy with
      | element => rfl
      | member front back =>
          refine exported_congr (by simp) hfile fun habsent => ?_
          exact absurd (by simp) habsent

theorem AddsHidden.depth_le {x y : Json} (h : AddsHidden x y) :
    (Outline.ofJson x).depth ≤ (Outline.ofJson y).depth := by
  cases h with
  | node h => exact h.depth_le
  | document h hxy => exact hxy.depth_le h.depth_le

theorem exported_eq_of_reflTransGen {x y : Json} (h : Relation.ReflTransGen AddsHidden x y)
    (hdepth : (Outline.ofJson y).depth ≤ Setting.depthLimit) :
    (exported x).map visiblePart = (exported y).map visiblePart ∧
      (Outline.ofJson x).depth ≤ (Outline.ofJson y).depth := by
  induction h using Relation.ReflTransGen.head_induction_on with
  | refl => exact ⟨rfl, le_rfl⟩
  | head hstep _ ih =>
      obtain ⟨hrest, hle⟩ := ih
      exact ⟨(hstep.exported_eq (hle.trans hdepth)).trans hrest, hstep.depth_le.trans hle⟩

/-- Texts whose values come from one value by adding hidden paints and effects have the same visible
part, or they are refused with the same error. -/
theorem readExported_eq_of_reflTransGen {text text' : String} {base x y : Json}
    (hx : Json.readWhole text = .ok x) (hy : Json.readWhole text' = .ok y)
    (hbase : Relation.ReflTransGen AddsHidden base x)
    (hbase' : Relation.ReflTransGen AddsHidden base y) :
    (readExported text).map visiblePart = (readExported text').map visiblePart := by
  obtain ⟨hleft, -⟩ := exported_eq_of_reflTransGen hbase (Json.depth_le_of_readWhole_eq_ok hx)
  obtain ⟨hright, -⟩ := exported_eq_of_reflTransGen hbase' (Json.depth_le_of_readWhole_eq_ok hy)
  rw [readExported, readExported, hx, hy]
  exact hleft.symm.trans hright

end File
end Export

namespace Compilation

open Export

/-- Nothing tells the texts apart: the file that is read, or the error, its analysis, and what is
compiled. -/
structure SameOutcome (text text' : String) : Prop where
  read : File.read text = File.read text'
  analysis : ∀ options : Options,
    (File.read text).map (fun file => Design.analyze options file.document) =
      (File.read text').map (fun file => Design.analyze options file.document)
  compilation : ∀ options, ofExport options text = ofExport options text'

theorem sameOutcome_of_read_eq {text text' : String} (h : File.read text = File.read text') :
    SameOutcome text text' := by
  refine ⟨h, fun options => by rw [h], fun options => ?_⟩
  rw [ofExport, ofExport, h]

/-- Every layer of an exported tree becomes the layer at its place in the design, of which only its
visible paints and effects are shown, each as the kind that its type names, and there are no other
layers in the design.  So trees with the same visible part have the same design, and nothing tells two
texts apart that hold the same visible part, be it because hidden paints and effects were added to one
value, in one of them or in both. -/
theorem ofExport_ignores_hidden :
    (∀ (n : Node) (p : Position),
      Option.Rel (fun m d => m.value.Becomes d.value) (n.at? p) (n.toDesign.at? p)) ∧
    (∀ n m : Node, n.visiblePart = m.visiblePart → n.toDesign = m.toDesign) ∧
    (∀ text text' : String,
      (File.readExported text).map File.visiblePart =
        (File.readExported text').map File.visiblePart →
      SameOutcome text text') ∧
    ∀ (text text' : String) (base x y : Json),
      Json.readWhole text = .ok x → Json.readWhole text' = .ok y →
      Relation.ReflTransGen File.AddsHidden base x →
      Relation.ReflTransGen File.AddsHidden base y →
      SameOutcome text text' := by
  refine ⟨Node.becomes_at?, fun _ _ => Node.toDesign_eq_of_visiblePart_eq, ?_, ?_⟩
  · intro text text' h
    exact sameOutcome_of_read_eq (File.read_eq_of_visiblePart h)
  · intro text text' base x y hx hy hbase hbase'
    have hvisible := File.readExported_eq_of_reflTransGen hx hy hbase hbase'
    exact sameOutcome_of_read_eq (File.read_eq_of_visiblePart hvisible)

/-- A layer of an unknown type with the given fills, below a frame that is the document of a file. -/
def sampleFills (fills : List Json) : Json :=
  .obj
    [("document",
      .obj
        [("children", .arr [.obj [("fills", .arr fills), ("type", .str "RECTANGLE")]]),
         ("type", .str "FRAME")])]

/-- An image that is not shown. -/
def sampleHiddenImage : Json :=
  .obj [("type", .str "IMAGE"), ("visible", .bool false)]

/-- A printed sample is taken in as it was printed. -/
theorem readWhole_compact_sampleFills (fills : List Json)
    (hlegible : Json.LegibleItems 122 fills) (harrange : Json.arrangeItems fills = fills) :
    Json.readWhole (sampleFills fills).compact = .ok (sampleFills fills) := by
  have hholds : Json.Holds (sampleFills fills).compact (sampleFills fills) :=
    Json.holds_chars Json.Layout.compact_isBlank <| by
      simp [sampleFills, Json.Legible, Json.LegibleMembers, Json.LegibleItems,
        Json.Setting.depthLimit, hlegible]
  have hfills : ¬"type" < "fills" := by decide
  have hchildren : ¬"type" < "children" := by decide
  have hsample : (sampleFills fills).arrange = sampleFills fills := by
    simp only [sampleFills, Json.arrange, Json.arrangeMembers, Json.arrangeItems, Json.insertMember,
      harrange, hfills, hchildren, String.reduceEq, if_false]
  rw [Json.readWhole_of_holds hholds, hsample]

theorem addsHidden_sampleFills :
    File.AddsHidden (sampleFills []) (sampleFills [sampleHiddenImage]) := by
  have hhidden : IsHiddenPaint sampleHiddenImage := ⟨⟨"IMAGE", false, none, none⟩, by rfl, rfl⟩
  have hfill := Node.AddsHidden.fill hhidden ⟨[], [], rfl, rfl⟩
    (.member [] [("type", .str "RECTANGLE")])
  have hchild := Node.AddsHidden.child hfill [] [] (.member [] [("type", .str "FRAME")])
  exact .document hchild (.member [] [])

/-- A hidden image does not make a layer an image. -/
theorem ofExport_ignores_hidden_image :
    File.AddsHidden (sampleFills []) (sampleFills [sampleHiddenImage]) ∧
      SameOutcome (sampleFills []).compact (sampleFills [sampleHiddenImage]).compact := by
  have hempty := readWhole_compact_sampleFills []
    (by simp [Json.LegibleItems]) rfl
  have himage := readWhole_compact_sampleFills [sampleHiddenImage]
    (by simp [sampleHiddenImage, Json.Legible, Json.LegibleMembers, Json.LegibleItems]) (by rfl)
  have hadds := addsHidden_sampleFills
  obtain ⟨-, -, -, hadded⟩ := ofExport_ignores_hidden
  exact ⟨hadds, hadded _ _ _ _ _ hempty himage .refl (.single hadds)⟩

end Compilation
end DesignPages
