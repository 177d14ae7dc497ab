import DesignPages.Export.File
import DesignPages.Proofs.Json.Respect

/-!
# What an export says

Of an export only the members count whose names some record of the export has, and not their order.
Two texts that hold the same in this sense are read as the same file, or they are refused with the
same error.
-/

namespace DesignPages
namespace Export

open Json (Alike Decoder Field Record Setting SameContent)

/-- The names that some record of an export has. -/
def fieldNames : List String :=
  fileRecord.fields.map Field.name ++ (Node.record Node.decoder).fields.map Field.name ++
    boxRecord.fields.map Field.name ++ Paint.record.fields.map Field.name ++
    colorRecord.fields.map Field.name ++ Effect.record.fields.map Field.name ++
    textStyleRecord.fields.map Field.name

/-! ## Records -/

theorem boxRecord_respects : boxRecord.decoder.Respects fieldNames := by
  refine Record.decoder_respects ?_
  simp only [boxRecord, List.forall_mem_cons]
  exact ⟨.of Decoder.double_respects (by decide), .of Decoder.double_respects (by decide),
    .of Decoder.double_respects (by decide), .of Decoder.double_respects (by decide), by simp⟩

theorem colorRecord_respects : colorRecord.decoder.Respects fieldNames := by
  refine Record.decoder_respects ?_
  simp only [colorRecord, List.forall_mem_cons]
  exact ⟨.of Decoder.single_respects (by decide), .of Decoder.single_respects (by decide),
    .of Decoder.single_respects (by decide), .of Decoder.single_respects (by decide), by simp⟩

theorem Paint.record_respects : Paint.record.decoder.Respects fieldNames := by
  refine Record.decoder_respects ?_
  simp only [Paint.record, List.forall_mem_cons]
  exact ⟨.of Decoder.string_respects (by decide), .of Decoder.boolean_respects (by decide),
    .of Decoder.single_respects.nullable (by decide),
    .of colorRecord_respects.nullable (by decide), by simp⟩

theorem Effect.record_respects : Effect.record.decoder.Respects fieldNames := by
  refine Record.decoder_respects ?_
  simp only [Effect.record, List.forall_mem_cons]
  exact ⟨.of Decoder.string_respects (by decide), .of Decoder.boolean_respects (by decide),
    .of Decoder.double_respects.nullable (by decide), by simp⟩

theorem textStyleRecord_respects : textStyleRecord.decoder.Respects fieldNames := by
  refine Record.decoder_respects ?_
  simp only [textStyleRecord, List.forall_mem_cons]
  exact ⟨.of Decoder.double_respects.nullable (by decide),
    .of Decoder.double_respects.nullable (by decide), by simp⟩

namespace Node

theorem record_respects {child : Decoder Node} (h : child.Respects fieldNames) :
    (record child).decoder.Respects fieldNames := by
  refine Record.decoder_respects ?_
  simp only [record, layerField, List.forall_mem_cons]
  exact ⟨.of Decoder.string_respects (by decide),
    .of Decoder.string_respects (by decide),
    .of Decoder.string_respects (by decide),
    .of h.list (by decide),
    .of Decoder.string_respects.nullable (by decide),
    .of boxRecord_respects.nullable (by decide),
    .of Paint.record_respects.list (by decide),
    .of Paint.record_respects.list (by decide),
    .of Decoder.double_respects.nullable (by decide),
    .of Effect.record_respects.list (by decide),
    .of textStyleRecord_respects.nullable (by decide), by simp⟩

/-- Every stage of the reader of nodes goes by what the node says. -/
theorem decoderBelow_respects (height : ℕ) : (decoderBelow height).Respects fieldNames := by
  induction height with
  | zero => exact fun _ _ _ _ => rfl
  | succ height ih => exact record_respects ih

theorem decoder_respects : decoder.Respects fieldNames :=
  fun s v w h => decoderBelow_respects (s.room + 1) s v w h

end Node

theorem fileRecord_respects : fileRecord.decoder.Respects fieldNames := by
  refine Record.decoder_respects ?_
  simp only [fileRecord, List.forall_mem_cons]
  exact ⟨.of Decoder.string_respects.nullable (by decide),
    .of Node.decoder_respects.nullable (by decide), by simp⟩

/-! ## Files -/

namespace File

/-- Alike values are read as one file, or refused with one error. -/
theorem ofJson_eq_of_alike {v w : Json} (h : Alike fieldNames v w) :
    ofJson v.arrange = ofJson w.arrange := by
  have hfile := fileRecord_respects ⟨.whole, Setting.depthLimit⟩ v w h
  have hnode := Node.decoder_respects ⟨.whole, Setting.depthLimit⟩ v w h
  cases h.same with
  | obj _ =>
      have hdocument := h.isSome_member?_eq (show "document" ∈ fieldNames by decide)
      have htype := h.isSome_member?_eq (show "type" ∈ fieldNames by decide)
      simp only [Json.arrange] at hfile hnode
      simp only [Json.arrange, ofJson, Node.ofJson, Json.fromWhole, hdocument, htype, hfile, hnode]
  | _ => rfl

/-- Two texts whose values say the same, with no key twice in one object, are read as the same file
and design, or they are refused with the same error and so with the same message. -/
theorem read_eq_of_sameContent {text text' : String} {v v' : Json} (htext : Json.Holds text v)
    (htext' : Json.Holds text' v') (hkeys : v.DistinctKeys) (hkeys' : v'.DistinctKeys)
    (hsame : SameContent fieldNames v v') : read text = read text' := by
  rw [read, read, Json.readWhole_of_holds htext, Json.readWhole_of_holds htext']
  exact ofJson_eq_of_alike ⟨hsame, hkeys, hkeys'⟩

/-- A frame with two texts below it. -/
def sampleExport : Json :=
  .obj
    [("type", .str "FRAME"),
     ("children",
      .arr
        [.obj [("type", .str "TEXT"), ("characters", .str "Hi")],
         .obj [("type", .str "TEXT"), ("visible", .bool true)]])]

/-- The same with another order and with a member that no record has. -/
def reorderedExport : Json :=
  .obj
    [("children",
      .arr
        [.obj [("locked", .arr []), ("type", .str "TEXT"), ("characters", .str "Hi")],
         .obj [("visible", .bool true), ("type", .str "TEXT")]]),
     ("type", .str "FRAME")]

theorem sameContent_sampleExport : SameContent fieldNames reorderedExport sampleExport := by
  have hmore := Json.sameContent_cons (show "locked" ∉ fieldNames by decide) (.arr [])
    [("type", .str "TEXT"), ("characters", .str "Hi")]
  have hswapped : SameContent fieldNames (.obj [("visible", .bool true), ("type", .str "TEXT")])
      (.obj [("type", .str "TEXT"), ("visible", .bool true)]) :=
    Json.sameContent_of_perm (by decide) (List.Perm.swap _ _ _)
  refine .obj fun name _ => ?_
  simp only [Json.member?]
  by_cases hchildren : "children" = name
  · subst hchildren
    exact .some (.arr (.cons hmore (.cons hswapped .nil)))
  · rw [if_neg hchildren, if_neg hchildren]
    exact SameContent.refl_member name [("type", .str "FRAME")]

/-- The reordered export in one line is read as the other one over several lines. -/
theorem read_eq_of_sameContent_sampleExport :
    (Json.Holds reorderedExport.compact reorderedExport ∧
      Json.Holds sampleExport.pretty sampleExport ∧
      reorderedExport.DistinctKeys ∧ sampleExport.DistinctKeys ∧
      SameContent fieldNames reorderedExport sampleExport) ∧
    read reorderedExport.compact = read sampleExport.pretty := by
  have hreordered : Json.Holds reorderedExport.compact reorderedExport :=
    Json.holds_chars Json.Layout.compact_isBlank <| by
      simp [reorderedExport, Json.Legible, Json.LegibleMembers, Json.LegibleItems,
        Setting.depthLimit]
  have hsample : Json.Holds sampleExport.pretty sampleExport :=
    Json.holds_chars Json.Layout.pretty_isBlank <| by
      simp [sampleExport, Json.Legible, Json.LegibleMembers, Json.LegibleItems, Setting.depthLimit]
  have hkeys : reorderedExport.DistinctKeys := by
    simp [reorderedExport, Json.distinctKeys_obj_iff, Json.distinctKeys_arr_iff,
      Json.DistinctKeys.str, Json.DistinctKeys.bool]
  have hkeys' : sampleExport.DistinctKeys := by
    simp [sampleExport, Json.distinctKeys_obj_iff, Json.distinctKeys_arr_iff,
      Json.DistinctKeys.str, Json.DistinctKeys.bool]
  exact ⟨⟨hreordered, hsample, hkeys, hkeys', sameContent_sampleExport⟩,
    read_eq_of_sameContent hreordered hsample hkeys hkeys' sameContent_sampleExport⟩

end File
end Export
end DesignPages
