import DesignPages.Proofs.Generation
import DesignPages.Proofs.Json.Ensures

/-!
# Labels of frames

Analyzed frames can be read in one go, where every label is looked up as soon as its frame has been
read, or first with their labels and then with their categories.  Both ways accept the same texts and
read the same frames.  The generation goes the second way: a fault of the text is reported whatever
the labels are, and of the labels that no category has it is the first one that is reported.
-/

namespace DesignPages

/-! ## Readers with a check -/

namespace Json

variable {α β : Type} {d : Decoder α} {check : α → Except String β}

namespace Decoder

theorem refine_eq_ok_iff {s : Setting} {o : Outline} {b : β} :
    d.refine check s o = .ok b ↔ ∃ a, d s o = .ok a ∧ check a = .ok b := by
  rw [refine, bind_eq_ok_iff]
  refine exists_congr fun a => and_congr_right fun _ => ?_
  cases check a <;> simp

/-- Items that are checked one by one are the items that are read, after the check. -/
theorem items_refine_eq_ok_iff {s : Setting} {os : List Outline} {bs : List β} :
    items (d.refine check) s os = .ok bs ↔
      ∃ as, items d s os = .ok as ∧ List.Forall₂ (fun a b => check a = .ok b) as bs := by
  induction os generalizing bs with
  | nil =>
      rw [items, items]
      constructor
      · intro h
        obtain rfl := Except.ok.inj h
        exact ⟨[], rfl, .nil⟩
      · rintro ⟨as, has, hchecked⟩
        obtain rfl := Except.ok.inj has
        rw [List.forall₂_nil_left_iff.mp hchecked]
  | cons o os ih =>
      simp only [items, bind_eq_ok_iff, refine_eq_ok_iff, ih]
      constructor
      · rintro ⟨b, ⟨a, ha, hcheck⟩, bs', ⟨as, has, hchecked⟩, h⟩
        obtain rfl := Except.ok.inj h
        exact ⟨a :: as, ⟨a, ha, as, has, rfl⟩, .cons hcheck hchecked⟩
      · rintro ⟨_, ⟨a, ha, as, has, h⟩, hchecked⟩
        obtain rfl := Except.ok.inj h
        obtain ⟨b, bs', hcheck, hrest, rfl⟩ := List.forall₂_cons_left_iff.mp hchecked
        exact ⟨b, ⟨a, ha, hcheck⟩, bs', ⟨as, has, hrest⟩, rfl⟩

theorem list_refine_eq_ok_iff {s : Setting} {o : Outline} {bs : List β} :
    list (d.refine check) s o = .ok bs ↔
      ∃ as, list d s o = .ok as ∧ List.Forall₂ (fun a b => check a = .ok b) as bs := by
  cases o with
  | arr os stop =>
      simp only [list, bind_eq_ok_iff, items_refine_eq_ok_iff]
      constructor
      · rintro ⟨inside, hinside, bs', ⟨as, has, hchecked⟩, u, hstop, h⟩
        obtain rfl := Except.ok.inj h
        exact ⟨as, ⟨inside, hinside, as, has, u, hstop, rfl⟩, hchecked⟩
      · rintro ⟨_, ⟨inside, hinside, as, has, u, hstop, h⟩, hchecked⟩
        obtain rfl := Except.ok.inj h
        exact ⟨inside, hinside, bs, ⟨as, has, hchecked⟩, u, hstop, rfl⟩
  | _ => simp [list]

end Decoder

/-- A list that is checked while it is streamed is the list that is read, after the check. -/
theorem readStreamed_list_refine_eq_ok_iff {text : String} {bs : List β} :
    readStreamed (Decoder.list (d.refine check)) text = .ok bs ↔
      ∃ as, readStreamed (Decoder.list d) text = .ok as ∧
        List.Forall₂ (fun a b => check a = .ok b) as bs := by
  simp only [readStreamed, bind_eq_ok_iff, Decoder.list_refine_eq_ok_iff]
  constructor
  · rintro ⟨bs', ⟨as, has, hchecked⟩, u, hrest, h⟩
    obtain rfl := Except.ok.inj h
    exact ⟨as, ⟨as, has, u, hrest, rfl⟩, hchecked⟩
  · rintro ⟨_, ⟨as, has, u, hrest, h⟩, hchecked⟩
    obtain rfl := Except.ok.inj h
    exact ⟨bs, ⟨as, has, hchecked⟩, u, hrest, rfl⟩

end Json

/-! ## Lists of labels -/

section Except

variable {ε α β : Type} {f : α → Except ε β}

theorem mapM_eq_ok_iff {as : List α} {bs : List β} :
    as.mapM f = .ok bs ↔ List.Forall₂ (fun a b => f a = .ok b) as bs := by
  induction as generalizing bs with
  | nil =>
      rw [List.mapM_nil, List.forall₂_nil_left_iff]
      constructor
      · intro h
        exact (Except.ok.inj h).symm
      · rintro rfl
        rfl
  | cons a as ih =>
      simp only [List.mapM_cons, Json.bind_eq_ok_iff, ih, List.forall₂_cons_left_iff]
      constructor
      · rintro ⟨b, hb, bs', hbs, h⟩
        exact ⟨b, bs', hb, hbs, (Except.ok.inj h).symm⟩
      · rintro ⟨b, bs', hb, hbs, rfl⟩
        exact ⟨b, hb, bs', hbs, rfl⟩

/-- The first failure is the one that is reported. -/
theorem mapM_eq_error {done rest : List α} {a : α} {e : ε} (hdone : ∀ x ∈ done, ∃ b, f x = .ok b)
    (ha : f a = .error e) : (done ++ a :: rest).mapM f = .error e := by
  induction done with
  | nil =>
      rw [List.nil_append, List.mapM_cons, ha]
      rfl
  | cons x done ih =>
      obtain ⟨b, hb⟩ := hdone x List.mem_cons_self
      have hrest := ih fun y hy => hdone y (List.mem_cons_of_mem _ hy)
      rw [List.cons_append, List.mapM_cons, hb, hrest]
      rfl

end Except

/-! ## Labeled frames and analyzed frames -/

namespace LabeledFrame

variable {l : LabeledFrame} {a : AnalyzedFrame}

/-- The analyzed frame is the labeled one, and its category has the label. -/
structure Denotes (l : LabeledFrame) (a : AnalyzedFrame) : Prop where
  frame : a.frame = l.frame
  shouldSkip : a.shouldSkip = l.shouldSkip
  category : Category.ofLabel? l.label = some a.category

theorem categorize_eq_ok_iff : l.categorize = .ok a ↔ l.Denotes a := by
  rw [categorize]
  constructor
  · intro h
    cases hlabel : Category.ofLabel? l.label with
    | none => simp [hlabel] at h
    | some c =>
        rw [hlabel] at h
        obtain rfl := Except.ok.inj h
        exact ⟨rfl, rfl, hlabel⟩
  · rintro ⟨hframe, hskip, hlabel⟩
    rw [hlabel, ← hframe, ← hskip]

theorem categorize_eq_error (h : Category.ofLabel? l.label = none) :
    l.categorize = .error ⟨l.frame.id, l.label⟩ := by
  rw [categorize, h]

/-- If some label is unknown, there is a first one. -/
theorem exists_first_unknown {ls : List LabeledFrame}
    (h : ∃ l ∈ ls, Category.ofLabel? l.label = none) :
    ∃ done l rest, ls = done ++ l :: rest ∧
      (∀ d ∈ done, ∃ c, Category.ofLabel? d.label = some c) ∧
      Category.ofLabel? l.label = none := by
  have hfind : (ls.find? fun l => (Category.ofLabel? l.label).isNone).isSome = true := by
    simpa [List.find?_isSome] using h
  obtain ⟨l, hl⟩ := Option.isSome_iff_exists.mp hfind
  obtain ⟨hunknown, done, rest, hls, hdone⟩ := List.find?_eq_some_iff_append.mp hl
  refine ⟨done, l, rest, hls, ?_, Option.isNone_iff_eq_none.mp hunknown⟩
  intro d hd
  exact Option.isSome_iff_exists.mp (by simpa using hdone d hd)

/-- Labels denote frames exactly if all of them are known. -/
theorem exists_denotes_iff {ls : List LabeledFrame} :
    (∃ as, List.Forall₂ Denotes ls as) ↔
      ∀ l ∈ ls, ∃ c, Category.ofLabel? l.label = some c := by
  constructor
  · rintro ⟨as, has⟩
    induction has with
    | nil => exact fun l hl => absurd hl List.not_mem_nil
    | @cons l a _ _ hla _ ih => exact List.forall_mem_cons.mpr ⟨⟨a.category, hla.category⟩, ih⟩
  · intro h
    induction ls with
    | nil => exact ⟨[], .nil⟩
    | cons l ls ih =>
        rw [List.forall_mem_cons] at h
        obtain ⟨⟨c, hc⟩, hknown⟩ := h
        obtain ⟨as, has⟩ := ih hknown
        exact ⟨⟨l.frame, c, l.shouldSkip⟩ :: as, .cons ⟨rfl, rfl, hc⟩ has⟩

end LabeledFrame

namespace AnalyzedFrame

variable {text : String}

/-- Both ways of reading accept the same texts and give the same frames. -/
theorem readList_eq_ok_iff {as : List AnalyzedFrame} :
    readList text = .ok as ↔
      ∃ ls, LabeledFrame.readList text = .ok ls ∧ List.Forall₂ LabeledFrame.Denotes ls as := by
  have hcheck : ∀ (l : LabeledFrame) (a : AnalyzedFrame),
      l.categorize.mapError UnknownCategory.message = .ok a ↔ l.Denotes a := by
    intro l a
    rw [← LabeledFrame.categorize_eq_ok_iff]
    cases l.categorize <;> simp [Except.mapError]
  simp only [readList, decoder, LabeledFrame.readList, Json.readStreamed_list_refine_eq_ok_iff,
    hcheck]

theorem exists_readList_iff :
    (∃ as, readList text = .ok as) ↔
      ∃ ls, LabeledFrame.readList text = .ok ls ∧
        ∀ l ∈ ls, ∃ c, Category.ofLabel? l.label = some c := by
  simp only [readList_eq_ok_iff, ← LabeledFrame.exists_denotes_iff]
  rw [exists_comm]
  simp only [exists_and_left]

end AnalyzedFrame

namespace Compilation

section Frames

variable (options : Options) {text : String} {labeled : List LabeledFrame}

theorem ofFrames_of_fault {fault : Json.Fault} (h : LabeledFrame.readList text = .error fault) :
    ofFrames options text = .error (.read (.json fault)) := by
  rw [ofFrames, h]
  rfl

theorem ofFrames_of_denotes {frames : List AnalyzedFrame}
    (h : LabeledFrame.readList text = .ok labeled)
    (hframes : List.Forall₂ LabeledFrame.Denotes labeled frames) :
    ofFrames options text = (generate options frames).mapError .namingCollision := by
  have hmap : labeled.mapM LabeledFrame.categorize = .ok frames :=
    mapM_eq_ok_iff.mpr (hframes.imp fun _ _ => LabeledFrame.categorize_eq_ok_iff.mpr)
  simp only [ofFrames, h, hmap, Except.mapError, bind, Except.bind]

theorem ofFrames_of_readList {frames : List AnalyzedFrame}
    (h : AnalyzedFrame.readList text = .ok frames) :
    ∃ c, generate options frames = .ok c ∧ ofFrames options text = .ok c := by
  obtain ⟨labeled, hlabeled, hdenotes⟩ := AnalyzedFrame.readList_eq_ok_iff.mp h
  refine ⟨_, generate_eq options frames, ?_⟩
  rw [ofFrames_of_denotes options hlabeled hdenotes, generate_eq]
  rfl

/-- Of several unknown labels the first one is reported. -/
theorem ofFrames_of_unknown (h : LabeledFrame.readList text = .ok labeled)
    (hunknown : ∃ l ∈ labeled, Category.ofLabel? l.label = none) :
    ∃ done l rest, labeled = done ++ l :: rest ∧
      (∀ d ∈ done, ∃ c, Category.ofLabel? d.label = some c) ∧
      Category.ofLabel? l.label = none ∧
      ofFrames options text = .error (.unknownCategory ⟨l.frame.id, l.label⟩) := by
  obtain ⟨done, l, rest, rfl, hdone, hl⟩ := LabeledFrame.exists_first_unknown hunknown
  have hmap : (done ++ l :: rest).mapM LabeledFrame.categorize =
      .error ⟨l.frame.id, l.label⟩ := by
    refine mapM_eq_error ?_ (LabeledFrame.categorize_eq_error hl)
    intro d hd
    obtain ⟨c, hc⟩ := hdone d hd
    exact ⟨⟨d.frame, c, d.shouldSkip⟩, LabeledFrame.categorize_eq_ok_iff.mpr ⟨rfl, rfl, hc⟩⟩
  refine ⟨done, l, rest, rfl, hdone, hl, ?_⟩
  simp only [ofFrames, h, hmap, Except.mapError, bind, Except.bind]

/-- The text has a fault, some label is unknown, or frames are read. -/
theorem ofFrames_cases (options : Options) (text : String) :
    (∃ fault, ofFrames options text = .error (.read (.json fault))) ∨
      (∃ e, ofFrames options text = .error (.unknownCategory e)) ∨
      ∃ frames c, AnalyzedFrame.readList text = .ok frames ∧ ofFrames options text = .ok c := by
  cases hlabeled : LabeledFrame.readList text with
  | error fault => exact .inl ⟨fault, ofFrames_of_fault options hlabeled⟩
  | ok labeled =>
      by_cases hunknown : ∃ l ∈ labeled, Category.ofLabel? l.label = none
      · obtain ⟨-, l, -, -, -, -, hl⟩ := ofFrames_of_unknown options hlabeled hunknown
        exact .inr (.inl ⟨_, hl⟩)
      · have hknown : ∀ l ∈ labeled, ∃ c, Category.ofLabel? l.label = some c := by
          intro l hl
          exact Option.ne_none_iff_exists'.mp fun hnone => hunknown ⟨l, hl, hnone⟩
        obtain ⟨frames, hframes⟩ :=
          AnalyzedFrame.exists_readList_iff.mpr ⟨labeled, hlabeled, hknown⟩
        obtain ⟨c, -, hc⟩ := ofFrames_of_readList options hframes
        exact .inr (.inr ⟨frames, c, hframes, hc⟩)

theorem exists_ofFrames_iff (options : Options) (text : String) :
    (∃ c, ofFrames options text = .ok c) ↔
      ∃ labeled, LabeledFrame.readList text = .ok labeled ∧
        ∀ l ∈ labeled, ∃ c, Category.ofLabel? l.label = some c := by
  rw [← AnalyzedFrame.exists_readList_iff]
  constructor
  · rintro ⟨c, hc⟩
    rcases ofFrames_cases options text with ⟨_, h⟩ | ⟨_, h⟩ | ⟨frames, _, hframes, _⟩
    · exact absurd (h.symm.trans hc) (by simp)
    · exact absurd (h.symm.trans hc) (by simp)
    · exact ⟨frames, hframes⟩
  · rintro ⟨frames, hframes⟩
    obtain ⟨c, -, hc⟩ := ofFrames_of_readList options hframes
    exact ⟨c, hc⟩

end Frames

/-- What becomes of a text that should hold analyzed frames.  It is read in one go exactly if it is
read with labels that are all known, and exactly then a page is generated from it, which is the page
of the frames.  Otherwise the fault of the text is reported or, if there is none, the id and the label
of the first frame with an unknown label.  Names never collide. -/
theorem ofFrames_outcome (options : Options) (text : String) :
    (∀ frames, AnalyzedFrame.readList text = .ok frames ↔
      ∃ labeled, LabeledFrame.readList text = .ok labeled ∧
        List.Forall₂ LabeledFrame.Denotes labeled frames) ∧
    ((∃ frames, AnalyzedFrame.readList text = .ok frames) ↔
      ∃ labeled, LabeledFrame.readList text = .ok labeled ∧
        ∀ l ∈ labeled, ∃ c, Category.ofLabel? l.label = some c) ∧
    ((∃ c, ofFrames options text = .ok c) ↔ ∃ frames, AnalyzedFrame.readList text = .ok frames) ∧
    (∀ frames, AnalyzedFrame.readList text = .ok frames →
      ∃ c, generate options frames = .ok c ∧ ofFrames options text = .ok c) ∧
    (∀ fault, LabeledFrame.readList text = .error fault →
      ofFrames options text = .error (.read (.json fault))) ∧
    (∀ labeled, LabeledFrame.readList text = .ok labeled →
      (∃ l ∈ labeled, Category.ofLabel? l.label = none) →
      ∃ done l rest, labeled = done ++ l :: rest ∧
        (∀ d ∈ done, ∃ c, Category.ofLabel? d.label = some c) ∧
        Category.ofLabel? l.label = none ∧
        ofFrames options text = .error (.unknownCategory ⟨l.frame.id, l.label⟩)) ∧
    ∀ e, ofFrames options text ≠ .error (.namingCollision e) := by
  refine ⟨fun _ => AnalyzedFrame.readList_eq_ok_iff, AnalyzedFrame.exists_readList_iff, ?_,
    fun _ => ofFrames_of_readList options, fun _ => ofFrames_of_fault options,
    fun _ => ofFrames_of_unknown options, ?_⟩
  · constructor
    · rintro ⟨c, hc⟩
      rcases ofFrames_cases options text with ⟨fault, h⟩ | ⟨e, h⟩ | ⟨frames, c', hframes, -⟩
      · exact absurd (h.symm.trans hc) (by simp)
      · exact absurd (h.symm.trans hc) (by simp)
      · exact ⟨frames, hframes⟩
    · rintro ⟨frames, hframes⟩
      obtain ⟨c, -, hc⟩ := ofFrames_of_readList options hframes
      exact ⟨c, hc⟩
  · intro e he
    rcases ofFrames_cases options text with ⟨fault, h⟩ | ⟨e', h⟩ | ⟨frames, c, -, h⟩
    · exact absurd (h.symm.trans he) (by simp)
    · exact absurd (h.symm.trans he) (by simp)
    · exact absurd (h.symm.trans he) (by simp)

end Compilation
end DesignPages
