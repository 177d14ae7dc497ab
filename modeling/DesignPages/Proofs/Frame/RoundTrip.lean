import DesignPages.Proofs.Staging

/-!
# Frames that are printed and read again

Frames whose numbers are all finite can be printed and read again.  Everything comes back as it was,
but for the numbers: what comes back for a number is what is worked out for its text.  The frames are
therefore the same exactly if the text of every number reads back as this number.  Of all numbers only
the widths of borders have an influence on the page that is generated.
-/

namespace DesignPages
namespace AnalyzedFrame

open Json (Decoder Setting)

/-- Whether every number of a frame is finite: its box, its border and its background. -/
def isFinite (a : AnalyzedFrame) : Bool :=
  a.frame.box.all Box.isFinite && a.frame.style.hasFiniteBorder &&
    a.frame.style.hasFiniteBackground

/-- The text of every number of a frame reads back as this number. -/
structure NumbersReadBack (a : AnalyzedFrame) : Prop where
  box : ∀ b ∈ a.frame.box, b.NumbersReadBack
  style : a.frame.style.NumbersReadBack

variable {a : AnalyzedFrame}

theorem isMeasured_of_isFinite (h : a.isFinite = true) : a.frame.IsMeasured := by
  simp only [isFinite, Bool.and_eq_true] at h
  exact ⟨h.1.1, h.1.2⟩

theorem hasFiniteBackground_of_isFinite (h : a.isFinite = true) :
    a.frame.style.hasFiniteBackground = true := by
  simp only [isFinite, Bool.and_eq_true] at h
  exact h.2

theorem reread_eq_self_iff (h : a.isFinite = true) : a.reread = a ↔ a.NumbersReadBack := by
  have hmeasured := isMeasured_of_isFinite h
  have hbox := hmeasured.box
  rw [Option.all_eq_true] at hbox
  have hall : a.reread = a ↔
      a.frame.box.map Box.reread = a.frame.box ∧ a.frame.style.reread = a.frame.style := by
    obtain ⟨⟨id, name, texts, hasChildFrames, box, style⟩, category, shouldSkip⟩ := a
    simp [reread, Frame.reread]
  rw [hall, map_option_eq_self_iff fun b hb => Box.reread_eq_self_iff (hbox b hb),
    StyleTokens.reread_eq_self_iff hmeasured.border (hasFiniteBackground_of_isFinite h)]
  exact ⟨fun hback => ⟨hback.1, hback.2⟩, fun hback => ⟨hback.box, hback.style⟩⟩

/-- A printed frame with finite numbers is read as it was, up to its numbers. -/
theorem decoder_toJson (room : ℕ) (h : a.isFinite = true) :
    decoder ⟨.streamed, room + 3⟩ (.ofJson a.toJson) = .ok a.reread := by
  have hlabeled := LabeledFrame.decoder_toJson_of_finite room (isMeasured_of_isFinite h)
    (hasFiniteBackground_of_isFinite h)
  simp only [decoder, Decoder.refine, hlabeled, LabeledFrame.categorize,
    Category.ofLabel?_label, bind, Except.bind, Except.mapError]
  rfl

variable {as : List AnalyzedFrame}

theorem readList_chars {layout : Json.Layout} (hL : layout.IsBlank)
    (hfinite : ∀ a ∈ as, a.isFinite = true) :
    readList (String.ofList (Json.chars layout 0 (listToJson as))) = .ok (as.map reread) := by
  have hread := Json.readStreamed_chars (Decoder.list decoder) hL (legible_listToJson as)
    fun _ hd => absurd hd List.not_mem_nil
  rw [List.append_nil] at hread
  rw [readList, hread]
  exact (Decoder.list_ofList decoder toJson as .streamed).trans
    (Decoder.items_eq_ok fun a ha => decoder_toJson 123 (hfinite a ha))

/-- Frames with finite numbers that are printed in either layout are always read, and as the same frames
exactly if the text of every number reads back as this number.  The page that is generated from the
text is the one that is generated from the frames exactly if no border of a selected frame changes its
class, and so it is if the width of every border reads back. -/
theorem readList_printed_iff {text : String} (options : Options)
    (hfinite : ∀ a ∈ as, a.isFinite = true)
    (htext : text = (listToJson as).compact ∨ text = (listToJson as).pretty) :
    readList text = .ok (as.map reread) ∧
      (readList text = .ok as ↔ ∀ a ∈ as, a.NumbersReadBack) ∧
      ∃ c d, Compilation.generate options as = .ok c ∧
        Compilation.generate options (as.map reread) = .ok d ∧
        Compilation.ofFrames options text = .ok d ∧ (d = c ↔ Compilation.KeepsBorders as) ∧
        ((∀ a ∈ as, ∀ x ∈ a.frame.style.border, Json.ReadsBack Decoder.double .ofDouble x) →
          d = c) := by
  obtain ⟨layout, hL, rfl⟩ : ∃ layout : Json.Layout, layout.IsBlank ∧
      text = String.ofList (Json.chars layout 0 (listToJson as)) := by
    rcases htext with rfl | rfl
    · exact ⟨_, Json.Layout.compact_isBlank, rfl⟩
    · exact ⟨_, Json.Layout.pretty_isBlank, rfl⟩
  have hbackground (a) (ha : a ∈ as) := hasFiniteBackground_of_isFinite (hfinite a ha)
  refine ⟨readList_chars hL hfinite, ?_, ?_⟩
  · rw [readList_chars hL hfinite, Except.ok.injEq,
      map_list_eq_self_iff fun a ha => reread_eq_self_iff (hfinite a ha)]
  · obtain ⟨d, c, hd, hc, -, -, -, hsame⟩ := Compilation.generate_map_reread options hbackground
    have hsecond := Compilation.ofFrames_chars options hL
      (fun _ hd => absurd hd List.not_mem_nil)
      fun a ha => isMeasured_of_isFinite (hfinite a ha)
    rw [List.append_nil, if_pos hbackground, hd] at hsecond
    refine ⟨c, d, hc, hd, hsecond, hsame, fun hback => ?_⟩
    exact hsame.mpr fun p hp _ =>
      keepsBorder_of_readsBack (hback p.1 (List.fst_mem_of_mem_zipIdx hp))

/-- A frame with texts that need every kind of escape, and with numbers of every kind. -/
def sampleFrame : AnalyzedFrame where
  frame :=
    { id := "1:\"2\\"
      name := "Tab\tand\u2028line\nbreak"
      texts := ["\x01\x7f", "\x7b\"type\":null\x7d", ""]
      hasChildFrames := true
      box := some ⟨0.1, -0.0, 1e300, 5e-324⟩
      style := ⟨some ⟨0.1, 1, 1e-30, 2⟩, true, some 1.5, some .xl2, some .extraBold⟩ }
  category := .cta
  shouldSkip := true

/-- The sample is read as it was, and so is the page of both texts. -/
theorem readList_printed_sampleFrame :
    ((∀ a ∈ [sampleFrame], a.isFinite = true) ∧
      (listToJson [sampleFrame]).pretty = (listToJson [sampleFrame]).pretty) ∧
    readList (listToJson [sampleFrame]).compact = .ok [sampleFrame] ∧
    readList (listToJson [sampleFrame]).pretty = .ok [sampleFrame] ∧
    ∃ c, Compilation.generate .standard [sampleFrame] = .ok c ∧
      Compilation.ofFrames .standard (listToJson [sampleFrame]).pretty = .ok c := by
  have hfinite : ∀ a ∈ [sampleFrame], a.isFinite = true := by decide +kernel
  have hback : ∀ a ∈ [sampleFrame], a.NumbersReadBack := by
    intro a ha
    obtain rfl := List.mem_singleton.mp ha
    refine ⟨fun b hb => ?_, fun c hc => ?_, fun x hx => ?_⟩
    · obtain rfl := Option.some.inj hb
      constructor <;> decide +kernel
    · obtain rfl := Option.some.inj hc
      constructor <;> decide +kernel
    · obtain rfl := Option.some.inj hx
      decide +kernel
  obtain ⟨-, hcompact, -⟩ := readList_printed_iff .standard hfinite (Or.inl rfl)
  obtain ⟨-, hpretty, c, d, hc, -, hd, -, hsame⟩ :=
    readList_printed_iff .standard hfinite (Or.inr rfl)
  obtain rfl := hsame fun a ha => (hback a ha).style.border
  exact ⟨⟨hfinite, rfl⟩, hcompact.mpr hback, hpretty.mpr hback, d, hc, hd⟩

end AnalyzedFrame
end DesignPages
