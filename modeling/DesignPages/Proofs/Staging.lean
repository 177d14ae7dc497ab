import DesignPages.Proofs.Export.Finite
import DesignPages.Proofs.Frame.Reread

/-!
# Analysis and generation apart

The analysis of a design can be printed and handed over to a generation that runs apart.  Two things
can go wrong on the way.  A channel that is not finite is printed as `null`, which stops the second
run.  And a number that is read need not be the one that was printed; this shows in the class of a
border.  The page is the one that is compiled in one run exactly if neither happens.
-/

namespace DesignPages

/-- The text that the analysis of a design is printed as. -/
def AnalyzedFrame.printed (as : List AnalyzedFrame) : String :=
  (AnalyzedFrame.listToJson as).pretty ++ "\n"

namespace Compilation

/-! ## The second run -/

/-- Generating from printed frames, in either layout. -/
theorem ofFrames_chars (options : Options) {layout : Json.Layout} (hL : layout.IsBlank)
    {blank : List Char} (hblank : ∀ c ∈ blank, Json.Scan.isSpace c = true)
    {as : List AnalyzedFrame} (hmeasured : ∀ a ∈ as, a.frame.IsMeasured) :
    ofFrames options
        (String.ofList (Json.chars layout 0 (AnalyzedFrame.listToJson as) ++ blank)) =
      if ∀ a ∈ as, a.frame.style.hasFiniteBackground = true then
        (generate options (as.map AnalyzedFrame.reread)).mapError .namingCollision
      else .error (.read (.json .nullChannel)) := by
  split_ifs with hfinite
  · have hread := LabeledFrame.readList_of_finite hL hblank hmeasured hfinite
    simp only [ofFrames, hread, LabeledFrame.mapM_categorize_rereadOf, Except.mapError, bind,
      Except.bind]
  · have hbad : ∃ a ∈ as, a.frame.style.hasFiniteBackground = false := by
      simpa using hfinite
    have hread := LabeledFrame.readList_of_not_finite hL hblank hmeasured hbad
    simp only [ofFrames, hread, Except.mapError, bind, Except.bind]

/-- Every export that can be read compiles to the page of its frames. -/
theorem ofExport_of_read (options : Options) {text : String} {file : Export.File}
    (h : Export.File.read text = .ok file) :
    ofExport options text =
      (generate options (Design.analyze options file.document)).mapError .namingCollision := by
  simp only [ofExport, h, ofDesign, Except.mapError, bind, Except.bind]

theorem exists_ofExport_iff (options : Options) (text : String) :
    (∃ c, ofExport options text = .ok c) ↔ ∃ file, Export.File.read text = .ok file := by
  cases hread : Export.File.read text with
  | error r =>
      have hfail := (ofExport_eq_error_iff options text (.read r)).mpr ⟨r, hread, rfl⟩
      simp [hfail]
  | ok file =>
      simp [ofExport_of_read options hread, generate_eq, Except.mapError]

variable {options : Options} {text : String} {file : Export.File}

/-- The second run on the analysis that the first run printed. -/
theorem ofFrames_printed (h : Export.File.read text = .ok file) :
    ofFrames options (AnalyzedFrame.printed (Design.analyze options file.document)) =
      if ∀ a ∈ Design.analyze options file.document,
          a.frame.style.hasFiniteBackground = true then
        (generate options
          ((Design.analyze options file.document).map AnalyzedFrame.reread)).mapError
            .namingCollision
      else .error (.read (.json .nullChannel)) := by
  have hnewline : ∀ d ∈ ['\n'], Json.Scan.isSpace d = true := by
    intro d hd
    rw [List.mem_singleton.mp hd]
    rfl
  have hchars := ofFrames_chars options Json.Layout.pretty_isBlank hnewline
    fun a (ha : a ∈ Design.analyze options file.document) =>
      Design.isMeasured_of_mem_analyze h ha
  rw [← hchars, AnalyzedFrame.printed, Json.pretty, String.ofList_append]

/-- It does not matter whether the analysis is printed on one line or on many. -/
theorem ofPrintedFrames_eq (h : Export.File.read text = .ok file) :
    ofPrintedFrames options file.document =
      ofFrames options (AnalyzedFrame.printed (Design.analyze options file.document)) := by
  have hchars := ofFrames_chars options Json.Layout.compact_isBlank
    (fun _ hd => absurd hd List.not_mem_nil)
    fun a (ha : a ∈ Design.analyze options file.document) =>
      Design.isMeasured_of_mem_analyze h ha
  rw [List.append_nil] at hchars
  rw [ofFrames_printed h, ← hchars, ofPrintedFrames, Json.compact]

/-! ## The page of both runs -/

/-- Printing frames loses nothing that their page shows: every background is finite, and no border of a
selected frame changes its class. -/
structure PrintsFaithfully (frames : List AnalyzedFrame) : Prop where
  background : ∀ a ∈ frames, a.frame.style.hasFiniteBackground = true
  borders : KeepsBorders frames

theorem printsFaithfully_iff {frames : List AnalyzedFrame} :
    PrintsFaithfully frames ↔
      (∀ a ∈ frames, a.frame.style.hasFiniteBackground = true) ∧ KeepsBorders frames :=
  ⟨fun h => ⟨h.background, h.borders⟩, fun h => ⟨h.1, h.2⟩⟩

instance (frames : List AnalyzedFrame) : Decidable (PrintsFaithfully frames) :=
  decidable_of_iff' _ printsFaithfully_iff

/-- With finite backgrounds it is enough that the widths of borders have short texts. -/
theorem printsFaithfully_of_isShort {frames : List AnalyzedFrame}
    (hfinite : ∀ a ∈ frames, a.frame.style.hasFiniteBackground = true)
    (hshort : ∀ a ∈ frames, ∀ x ∈ a.frame.style.border,
      ∃ l, Json.Literal.ofDouble? x = some l ∧ l.IsShort) : PrintsFaithfully frames where
  background := hfinite
  borders p hp _ := AnalyzedFrame.keepsBorder_of_readsBack fun x hx => by
    obtain ⟨l, hl, h⟩ := hshort p.1 (List.fst_mem_of_mem_zipIdx hp) x hx
    exact Json.readsBack_of_isShort hl h

/-- The second run gives the page of the export exactly if the frames are printed faithfully. -/
theorem ofFrames_printed_eq_iff (h : Export.File.read text = .ok file) :
    ofFrames options (AnalyzedFrame.printed (Design.analyze options file.document)) =
        ofExport options text ↔
      PrintsFaithfully (Design.analyze options file.document) := by
  rw [ofFrames_printed h, ofExport_of_read options h, printsFaithfully_iff]
  split_ifs with hfinite
  · obtain ⟨c, d, hc, hd, -, -, -, hsame⟩ := generate_map_reread options hfinite
    rw [hc, hd, ← hsame, and_iff_right hfinite]
    simp [Except.mapError]
  · rw [generate_eq]
    simp [Except.mapError, hfinite]

/-- Whenever an export compiles, the second run on its printed analysis gives the same page exactly if
the frames are printed faithfully.  If a background is not finite, the second run cannot read the
analysis.  If all of them are, it gives the page of the frames that are read from the analysis, which
may differ in the sources of components and in nothing else. -/
theorem ofFrames_printed_analysis {options : Options} {text : String} {c : Compilation}
    (h : ofExport options text = .ok c) :
    ∃ file, Export.File.read text = .ok file ∧
      (ofFrames options (AnalyzedFrame.printed (Design.analyze options file.document)) = .ok c ↔
        PrintsFaithfully (Design.analyze options file.document)) ∧
      ((∃ a ∈ Design.analyze options file.document,
          a.frame.style.hasFiniteBackground = false) →
        ofFrames options (AnalyzedFrame.printed (Design.analyze options file.document)) =
          .error (.read (.json .nullChannel))) ∧
      ((∀ a ∈ Design.analyze options file.document,
          a.frame.style.hasFiniteBackground = true) →
        ∃ d, ofFrames options (AnalyzedFrame.printed (Design.analyze options file.document)) =
            .ok d ∧
          generate options ((Design.analyze options file.document).map AnalyzedFrame.reread) =
            .ok d ∧
          d.diagnostics = c.diagnostics ∧ d.page.source = c.page.source ∧
          d.page.components.map Component.name = c.page.components.map Component.name) := by
  obtain ⟨file, hread⟩ := (exists_ofExport_iff options text).mp ⟨c, h⟩
  refine ⟨file, hread, ?_, ?_, ?_⟩
  · rw [← h]
    exact ofFrames_printed_eq_iff hread
  · rintro ⟨a, ha, hbad⟩
    rw [ofFrames_printed hread, if_neg]
    intro hfinite
    rw [hfinite a ha] at hbad
    exact absurd hbad (by decide)
  · intro hfinite
    obtain ⟨d, c', hd, hc', hdiagnostics, hnames, hsource, -⟩ :=
      generate_map_reread options hfinite
    rw [ofExport_of_read options hread, hc', Except.mapError, Except.ok.injEq] at h
    subst h
    refine ⟨d, ?_, hd, hdiagnostics, hsource, hnames⟩
    rw [ofFrames_printed hread, if_pos hfinite, hd, Except.mapError]

/-- An export of one frame, given the literal of the red channel of its background. -/
def exportWithRed (red : String) : String :=
  "\x7b\"type\":\"FRAME\",\"fills\":[\x7b\"type\":\"SOLID\",\"color\":\x7b\"r\":" ++ red ++
    ",\"g\":0,\"b\":0\x7d\x7d]\x7d"

/-- An export of one frame, given the literal of the width of its border. -/
def exportWithStroke (weight : String) : String :=
  "\x7b\"type\":\"FRAME\",\"strokes\":[\x7b\"type\":\"SOLID\"\x7d],\"strokeWeight\":" ++ weight ++
    "\x7d"

/-- Whether an export can be read and its frames pass a test. -/
def readsWith (test : List AnalyzedFrame → Bool) (text : String) : Bool :=
  (Export.File.read text).toOption.any fun file => test (Design.analyze .standard file.document)

theorem exists_of_readsWith {test : List AnalyzedFrame → Bool} {text : String}
    (h : readsWith test text = true) :
    ∃ c file, ofExport .standard text = .ok c ∧ Export.File.read text = .ok file ∧
      test (Design.analyze .standard file.document) = true := by
  cases hread : Export.File.read text with
  | error e => simp [readsWith, hread, Except.toOption] at h
  | ok file =>
      obtain ⟨c, hc⟩ := (exists_ofExport_iff .standard text).mpr ⟨file, hread⟩
      exact ⟨c, file, hc, rfl, by simpa [readsWith, hread, Except.toOption] using h⟩

/-- With half of red the second run gives the same page, and with a red beyond all singles it fails,
although the export compiles.  With a border that is printed as `52.314008204106244` and read from this
as a smaller number, it gives another page. -/
theorem ofFrames_printed_red :
    (∃ c file, ofExport .standard (exportWithRed "0.5") = .ok c ∧
      Export.File.read (exportWithRed "0.5") = .ok file ∧
      ofFrames .standard (AnalyzedFrame.printed (Design.analyze .standard file.document)) =
        .ok c) ∧
    (∃ c file, ofExport .standard (exportWithRed "1e39") = .ok c ∧
      Export.File.read (exportWithRed "1e39") = .ok file ∧
      ofFrames .standard (AnalyzedFrame.printed (Design.analyze .standard file.document)) =
        .error (.read (.json .nullChannel))) ∧
    ∃ c d file, ofExport .standard (exportWithStroke "52.3140082041062433") = .ok c ∧
      Export.File.read (exportWithStroke "52.3140082041062433") = .ok file ∧
      ofFrames .standard (AnalyzedFrame.printed (Design.analyze .standard file.document)) =
        .ok d ∧ d ≠ c := by
  have hhalf : readsWith (fun as => PrintsFaithfully as) (exportWithRed "0.5") = true := by
    decide +kernel
  have hbeyond : readsWith (fun as => as.any fun a => !a.frame.style.hasFiniteBackground)
      (exportWithRed "1e39") = true := by decide +kernel
  have hwidth : readsWith (fun as => as.all (fun a => a.frame.style.hasFiniteBackground) &&
      !decide (KeepsBorders as)) (exportWithStroke "52.3140082041062433") = true := by
    decide +kernel
  refine ⟨?_, ?_, ?_⟩
  · obtain ⟨c, file, hc, hread, hprints⟩ := exists_of_readsWith hhalf
    obtain ⟨file', hread', hsame, -⟩ := ofFrames_printed_analysis hc
    obtain rfl : file = file' := Except.ok.inj (hread.symm.trans hread')
    exact ⟨c, file, hc, hread, hsame.mpr (of_decide_eq_true hprints)⟩
  · obtain ⟨c, file, hc, hread, hbad⟩ := exists_of_readsWith hbeyond
    obtain ⟨file', hread', -, hfails, -⟩ := ofFrames_printed_analysis hc
    obtain rfl : file = file' := Except.ok.inj (hread.symm.trans hread')
    exact ⟨c, file, hc, hread, hfails (by simpa using hbad)⟩
  · obtain ⟨c, file, hc, hread, htest⟩ := exists_of_readsWith hwidth
    obtain ⟨file', hread', hsame, -, hreads⟩ := ofFrames_printed_analysis hc
    obtain rfl : file = file' := Except.ok.inj (hread.symm.trans hread')
    rw [Bool.and_eq_true, List.all_eq_true, Bool.not_eq_true', decide_eq_false_iff_not] at htest
    obtain ⟨d, hd, -⟩ := hreads htest.1
    refine ⟨c, d, file, hc, hread, hd, ?_⟩
    rintro rfl
    exact htest.2 (hsame.mp hd).borders

end Compilation

end DesignPages
