import DesignPages.Compile
import DesignPages.Proofs.Json.Context
import DesignPages.Proofs.Json.Room

/-!
# The two forms of an export

An export is either a node on its own or an object with the node under `document`.  Both forms are
read as the node is read, and both are refused with its fault; the bracket around the node takes one
of the brackets that may stand inside each other.
-/

namespace DesignPages

open Json (Decoder Outline Record Setting)

/-! ## Readers of nodes -/

namespace Export

variable {k : ℕ}

theorem boxRecord_agreeBelow : Decoder.AgreeBelow k boxRecord.decoder boxRecord.decoder := by
  refine (Record.AgreeBelow.decoder ⟨rfl, ?_, rfl⟩).mono (Nat.le_succ k)
  exact .cons (.of Decoder.double_agreeBelow) <| .cons (.of Decoder.double_agreeBelow) <|
    .cons (.of Decoder.double_agreeBelow) <| .cons (.of Decoder.double_agreeBelow) .nil

theorem colorRecord_agreeBelow : Decoder.AgreeBelow k colorRecord.decoder colorRecord.decoder := by
  refine (Record.AgreeBelow.decoder ⟨rfl, ?_, rfl⟩).mono (Nat.le_succ k)
  exact .cons (.of Decoder.single_agreeBelow) <| .cons (.of Decoder.single_agreeBelow) <|
    .cons (.of Decoder.single_agreeBelow) <| .cons (.of Decoder.single_agreeBelow) .nil

theorem Paint.record_agreeBelow :
    Decoder.AgreeBelow k Paint.record.decoder Paint.record.decoder := by
  refine (Record.AgreeBelow.decoder ⟨rfl, ?_, rfl⟩).mono (Nat.le_succ k)
  exact .cons (.of Decoder.string_agreeBelow) <| .cons (.of Decoder.boolean_agreeBelow) <|
    .cons (.of Decoder.single_agreeBelow.nullable) <|
    .cons (.of colorRecord_agreeBelow.nullable) .nil

theorem Effect.record_agreeBelow :
    Decoder.AgreeBelow k Effect.record.decoder Effect.record.decoder := by
  refine (Record.AgreeBelow.decoder ⟨rfl, ?_, rfl⟩).mono (Nat.le_succ k)
  exact .cons (.of Decoder.string_agreeBelow) <| .cons (.of Decoder.boolean_agreeBelow) <|
    .cons (.of Decoder.double_agreeBelow.nullable) .nil

theorem textStyleRecord_agreeBelow :
    Decoder.AgreeBelow k textStyleRecord.decoder textStyleRecord.decoder := by
  refine (Record.AgreeBelow.decoder ⟨rfl, ?_, rfl⟩).mono (Nat.le_succ k)
  exact .cons (.of Decoder.double_agreeBelow.nullable) <|
    .cons (.of Decoder.double_agreeBelow.nullable) .nil

namespace Node

theorem record_agreeBelow {c c' : Decoder Node} (h : Decoder.AgreeBelow k c c') :
    Record.AgreeBelow k (record c) (record c') := by
  have hstring : Decoder.AgreeBelow k Decoder.string Decoder.string := Decoder.string_agreeBelow
  have hpaints : Decoder.AgreeBelow k (Decoder.list Paint.record.decoder)
      (Decoder.list Paint.record.decoder) :=
    Paint.record_agreeBelow.list.mono (Nat.le_succ k)
  have heffects : Decoder.AgreeBelow k (Decoder.list Effect.record.decoder)
      (Decoder.list Effect.record.decoder) :=
    Effect.record_agreeBelow.list.mono (Nat.le_succ k)
  refine ⟨rfl, ?_, rfl⟩
  exact .cons (.of hstring) <| .cons (.of hstring) <| .cons (.of hstring) <|
    .cons (.of (h.list.mono (Nat.le_succ k))) <| .cons (.of hstring.nullable) <|
    .cons (.of boxRecord_agreeBelow.nullable) <| .cons (.of hpaints) <| .cons (.of hpaints) <|
    .cons (.of Decoder.double_agreeBelow.nullable) <| .cons (.of heffects) <|
    .cons (.of textStyleRecord_agreeBelow.nullable) .nil

/-- Any two stages read the nodes alike that are less deep than either stage is high. -/
theorem decoderBelow_agreeBelow :
    ∀ {k height height' : ℕ}, k ≤ height → k ≤ height' →
      Decoder.AgreeBelow k (decoderBelow height) (decoderBelow height')
  | 0, _, _, _, _ => fun _ _ _ hk _ => absurd hk (Nat.not_lt_zero _)
  | k + 1, height, height', h, h' => by
      obtain ⟨height, rfl⟩ : ∃ n, height = n + 1 := ⟨height - 1, by omega⟩
      obtain ⟨height', rfl⟩ : ∃ n, height' = n + 1 := ⟨height' - 1, by omega⟩
      exact (record_agreeBelow (decoderBelow_agreeBelow (by omega) (by omega))).decoder

/-- A node is read alike wherever there is room for it. -/
theorem decoder_eq_of_bothAllow {s s' : Setting} {o : Outline} (h : s.BothAllow o.depth s') :
    decoder s o = decoder s' o :=
  decoderBelow_agreeBelow (Nat.succ_le_succ h.left) (Nat.succ_le_succ h.right) s s' o
    (Nat.lt_succ_self _) h

end Node

/-! ## Texts -/

/-- The text of a node under `document`, with `blank` in front of the node. -/
def wrapped (blank text : String) : String :=
  "\x7b\"document\":" ++ blank ++ text ++ "\x7d"

variable {blank text : String}

theorem toList_wrapped (blank text : String) :
    (wrapped blank text).toList = '\x7b' :: (Json.stringLiteralChars "document".toList ++
      ':' :: (blank.toList ++ (text.toList ++ ['\x7d']))) := by
  have hkey : "\x7b\"document\":".toList =
      '\x7b' :: (Json.stringLiteralChars "document".toList ++ [':']) := by
    decide
  simp only [wrapped, String.toList_append, hkey, List.append_assoc, List.cons_append,
    List.nil_append]
  rfl

/-- A wrapped text holds what the text holds, as a member. -/
theorem ofChars_wrapped {o : Outline} {rest : List Char}
    (h : Outline.ofChars text.toList = (o, some rest))
    (hrest : ∀ c ∈ rest, Json.Scan.isSpace c = true)
    (hblank : ∀ c ∈ blank.toList, Json.Scan.isSpace c = true) :
    Outline.ofChars (wrapped blank text).toList =
      (.obj [(.text "document", o)] .closed, some []) := by
  have hlength := Json.Scan.length_stringLiteralChars "document".toList
  rw [Outline.ofChars, toList_wrapped]
  refine Json.Scan.value_singleton h hrest hblank ?_ ?_ <;>
    simp only [List.length_append, List.length_cons, List.length_nil] <;> omega

/-! ## Values -/

/-- What is taken in from a wrapped text is what is taken in from the text, as a member. -/
theorem readWhole_wrapped {o : Outline} {rest : List Char}
    (h : Outline.ofChars text.toList = (o, some rest))
    (hrest : ∀ c ∈ rest, Json.Scan.isSpace c = true) (hdepth : o.depth < Setting.depthLimit)
    (hblank : ∀ c ∈ blank.toList, Json.Scan.isSpace c = true) :
    Json.readWhole (wrapped blank text) =
      (Json.readWhole text).map fun v => .obj [("document", v)] := by
  have hroom : o.visit (Setting.depthLimit - 1) = o.visit Setting.depthLimit :=
    Outline.visit_eq_of_depth_le (by omega) (by omega)
  have hvisit : (Outline.obj [(.text "document", o)] .closed).visit Setting.depthLimit =
      (o.visit Setting.depthLimit).map fun v => .obj [("document", v)] := by
    rw [Outline.visit, if_neg (by decide), Outline.visitMembers, Outline.visitMembers, hroom]
    cases o.visit Setting.depthLimit <;> rfl
  have hend := Json.checkRest_blank hrest
  have hend' : Json.checkRest (some []) = .ok () := rfl
  simp only [Json.readWhole, ofChars_wrapped h hrest hblank, h, hvisit]
  cases o.visit Setting.depthLimit with
  | error why => rfl
  | ok v =>
      simp only [hend, hend', Except.map]
      rfl

/-- The record of a file reads an object under `document` as a node. -/
theorem fromWhole_fileRecord {ms : List (String × Json)}
    (hdepth : (Outline.ofJson (.obj ms)).depth < Setting.depthLimit) :
    Json.fromWhole fileRecord.decoder (.obj [("document", .obj ms)]) =
      (Json.fromWhole Node.decoder (.obj ms)).map fun n => (none, some n) := by
  have hroom : Setting.BothAllow (Outline.ofJson (.obj ms)).depth
      ⟨.whole, Setting.depthLimit - 1⟩ ⟨.whole, Setting.depthLimit⟩ :=
    ⟨rfl, by dsimp only; omega, by dsimp only; omega⟩
  have hnullable : Decoder.nullable Node.decoder ⟨.whole, Setting.depthLimit - 1⟩
        (Outline.ofJson (.obj ms)) =
      (Node.decoder ⟨.whole, Setting.depthLimit⟩ (Outline.ofJson (.obj ms))).map some := by
    rw [← Node.decoder_eq_of_bothAllow hroom, Outline.ofJson]
    rfl
  have hfield : fileRecord.field? "document" =
      some (.of "document" .defaulted (Decoder.nullable Node.decoder) fun v f => (f.1, v)) := by
    simp [Record.field?, fileRecord, Json.Field.of]
  have hinside : (Setting.mk .whole Setting.depthLimit).inside =
      .ok ⟨.whole, Setting.depthLimit - 1⟩ := rfl
  rw [Json.fromWhole, Json.fromWhole, Outline.ofJson, Outline.ofMembers, Outline.ofMembers]
  simp only [Record.decoder, hinside, Record.ofMembers, Record.readMembers, Json.Key.read,
    Json.orBroken, bind, Except.bind, hfield, Json.Field.of, hnullable]
  cases Node.decoder ⟨.whole, Setting.depthLimit⟩ (Outline.ofJson (.obj ms)) <;> rfl

/-- An object is read under `document` as it is read as a node. -/
theorem File.ofJson_document {ms : List (String × Json)}
    (hdepth : (Outline.ofJson (.obj ms)).depth < Setting.depthLimit) :
    File.ofJson (.obj [("document", .obj ms)]) =
      (orJson (Node.ofJson (.obj ms))).map fun d => ⟨none, some d⟩ := by
  have hkey : (Json.member? "document" [("document", Json.obj ms)]).isSome = true := rfl
  rw [File.ofJson, if_pos hkey, fromWhole_fileRecord hdepth, Node.ofJson]
  cases Json.fromWhole Node.decoder (.obj ms) <;> rfl

/-- An object with a type and no document is read as a node. -/
theorem File.ofJson_node {ms : List (String × Json)}
    (htype : (Json.member? "type" ms).isSome = true)
    (hdocument : ¬(Json.member? "document" ms).isSome = true) :
    File.ofJson (.obj ms) = (orJson (Node.ofJson (.obj ms))).map fun d => ⟨none, some d⟩ := by
  rw [File.ofJson, if_neg hdocument, if_pos htype]
  cases Node.ofJson (.obj ms) <;> rfl

/-! ## Exports -/

/-- The text of a node on its own: an object with a type and no document, nothing but white space
around it, which leaves room for one more bracket. -/
structure IsNodeText (text : String) (members : List (Json.Key × Outline)) : Prop where
  outline : ∃ rest, Outline.ofChars text.toList = (.obj members .closed, some rest) ∧
    Json.Scan.skipSpace rest = []
  type_mem : .text "type" ∈ members.map Prod.fst
  document_not_mem : .text "document" ∉ members.map Prod.fst
  depth_lt : (Outline.obj members .closed).depth < Setting.depthLimit

namespace IsNodeText

variable {members : List (Json.Key × Outline)}

/-- If the text can be taken in, this gives an object with a type and no document. -/
theorem exists_of_readWhole_eq_ok (h : IsNodeText text members) {v : Json}
    (hread : Json.readWhole text = .ok v) :
    ∃ ms, v = .obj ms ∧ (Outline.ofJson v).depth < Setting.depthLimit ∧
      (Json.member? "type" ms).isSome = true ∧ ¬(Json.member? "document" ms).isSome = true := by
  obtain ⟨rest, houtline, -⟩ := h.outline
  obtain ⟨w, hvisit, rfl⟩ := Json.exists_of_readWhole_eq_ok hread
  rw [houtline] at hvisit
  dsimp only at hvisit
  have hdepth : (Outline.ofJson w.arrange).depth < Setting.depthLimit := by
    have harrange := Outline.depth_arrange_le w
    have htext := Outline.depth_of_visit_eq_ok hvisit
    have hlt := h.depth_lt
    omega
  rw [Outline.visit, if_neg (by decide)] at hvisit
  obtain ⟨ms, hms, hvisit⟩ := Json.exists_of_bind_eq_ok hvisit
  obtain rfl : Json.obj ms = w := Except.ok.inj hvisit
  have hkeys := Outline.map_fst_of_visitMembers_eq_ok hms
  have hmember (key : String) :
      (Json.member? key (Json.arrangeMembers ms [])).isSome = true ↔
        .text key ∈ members.map Prod.fst := by
    rw [Json.isSome_member?_arrangeMembers, hkeys]
    simp [Json.member?]
  refine ⟨Json.arrangeMembers ms [], by rw [Json.arrange], hdepth, ?_, ?_⟩
  · exact (hmember "type").mpr h.type_mem
  · exact fun hdocument => h.document_not_mem ((hmember "document").mp hdocument)

/-- The text is read as the node in it is read. -/
theorem read_eq (h : IsNodeText text members) :
    File.read text = (orJson (Node.read text)).map fun d => ⟨none, some d⟩ := by
  rw [File.read, Node.read]
  cases hread : Json.readWhole text with
  | error fault => rfl
  | ok v =>
      obtain ⟨ms, rfl, -, htype, hdocument⟩ := h.exists_of_readWhole_eq_ok hread
      exact File.ofJson_node htype hdocument

/-- The wrapped text is read as the node in it is read. -/
theorem read_wrapped_eq (h : IsNodeText text members)
    (hblank : ∀ c ∈ blank.toList, Json.Scan.isSpace c = true) :
    File.read (wrapped blank text) =
      (orJson (Node.read text)).map fun d => ⟨none, some d⟩ := by
  obtain ⟨rest, houtline, hskip⟩ := h.outline
  have hrest := Json.Scan.isSpace_of_skipSpace_eq_nil hskip
  rw [File.read, Node.read, readWhole_wrapped houtline hrest h.depth_lt hblank]
  cases hread : Json.readWhole text with
  | error fault => rfl
  | ok v =>
      obtain ⟨ms, rfl, hdepth, -, -⟩ := h.exists_of_readWhole_eq_ok hread
      exact File.ofJson_document hdepth

end IsNodeText
end Export

namespace Compilation

open Export

/-- The two forms of an export hold one design, which is the one that the node holds, or they are
refused for the one fault of the node; what is compiled from them is the same. -/
theorem ofExport_wrapped {blank text : String} {members : List (Json.Key × Outline)}
    (h : IsNodeText text members) (hblank : ∀ c ∈ blank.toList, Json.Scan.isSpace c = true) :
    File.read text = (orJson (Node.read text)).map (fun d => ⟨none, some d⟩) ∧
      File.read (wrapped blank text) = (orJson (Node.read text)).map (fun d => ⟨none, some d⟩) ∧
      ∀ options, ofExport options (wrapped blank text) = ofExport options text := by
  have hbare := h.read_eq
  have hwrapped := h.read_wrapped_eq hblank
  refine ⟨hbare, hwrapped, fun options => ?_⟩
  rw [ofExport, ofExport, hwrapped, hbare]

/-- The members of a frame with a text below it. -/
def sampleNode : List (String × Json) :=
  [("type", .str "FRAME"), ("children", .arr [.obj [("type", .str "TEXT")]])]

theorem isNodeText_sampleNode :
    IsNodeText (Json.obj sampleNode).compact (Outline.ofMembers sampleNode) where
  outline := by
    have hlegible : (Json.obj sampleNode).Legible 3 := by
      simp [sampleNode, Json.Legible, Json.LegibleMembers, Json.LegibleItems]
    have hblank : ∀ c ∈ ([] : List Char), Json.Scan.isSpace c = true := by simp
    have hchars := Outline.ofChars_chars Json.Layout.compact_isBlank hlegible hblank
    rw [List.append_nil, Outline.ofJson] at hchars
    exact ⟨[], by rw [Json.compact, String.toList_ofList, hchars], rfl⟩
  type_mem := by decide
  document_not_mem := by decide
  depth_lt := by decide

theorem ofExport_wrapped_sampleNode :
    IsNodeText (Json.obj sampleNode).compact (Outline.ofMembers sampleNode) ∧
      (∀ c ∈ " ".toList, Json.Scan.isSpace c = true) ∧
      ∀ options, ofExport options (wrapped " " (Json.obj sampleNode).compact) =
        ofExport options (Json.obj sampleNode).compact := by
  have hblank : ∀ c ∈ " ".toList, Json.Scan.isSpace c = true := by
    intro c hc
    obtain rfl : c = ' ' := by simpa using hc
    rfl
  exact ⟨isNodeText_sampleNode, hblank, (ofExport_wrapped isNodeText_sampleNode hblank).2.2⟩

end Compilation
end DesignPages
