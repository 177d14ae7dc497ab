import DesignPages.Compile
import Mathlib.Data.List.Basic

/-!
# The selection of frames

Whether a frame becomes a component, and under which name, is decided by a ledger that changes with
every frame.  This module describes the outcome without any ledger: a frame is selected by looking at
the frames before it, and its name by counting them.  The main statement is that admitting the frames
one after the other gives exactly the selected components.

The invariant behind it says what the counts of a ledger have to do with the frames that were judged
so far: a repeatable category was given as many names as there are such frames, and any other category
was given a name as soon as there is one.
-/

namespace DesignPages

/-! ## The selection without a ledger -/

/-- A frame is skipped by its mark, or because there is no text below it but a frame right below
it. -/
def AnalyzedFrame.IsSkipped (a : AnalyzedFrame) : Prop :=
  a.shouldSkip = true ∨ (a.frame.texts = [] ∧ a.frame.hasChildFrames = true)

instance (a : AnalyzedFrame) : Decidable a.IsSkipped :=
  inferInstanceAs (Decidable (_ ∨ _))

/-- The frame `a` at position `i` becomes a component: it is not skipped, and either galleries may
repeat or no frame before it that is not skipped has its category. -/
def IsSelected (frames : List AnalyzedFrame) (i : ℕ) (a : AnalyzedFrame) : Prop :=
  ¬a.IsSkipped ∧
    (a.category = .gallery ∨
      ∀ b ∈ frames.take i, ¬b.IsSkipped → b.category ≠ a.category)

instance (frames : List AnalyzedFrame) (i : ℕ) (a : AnalyzedFrame) :
    Decidable (IsSelected frames i a) :=
  inferInstanceAs (Decidable (_ ∧ _))

/-- How many galleries up to and including the one at position `i` are selected. -/
def galleryNumber (frames : List AnalyzedFrame) (i : ℕ) : ℕ :=
  (frames.take i).countP (fun b => ¬b.IsSkipped ∧ b.category = .gallery) + 1

/-- The name of the selected frame `a` at position `i`: its label, and the number of a gallery from
the second one on. -/
def selectedName (frames : List AnalyzedFrame) (i : ℕ) (a : AnalyzedFrame) : String :=
  if a.category = .gallery ∧ 2 ≤ galleryNumber frames i then
    a.category.label ++ toString (galleryNumber frames i)
  else
    a.category.label

/-- The component of the selected frame `a` at position `i`. -/
def selectedComponent (frames : List AnalyzedFrame) (i : ℕ) (a : AnalyzedFrame) : Component where
  id := a.frame.id
  originalName := a.frame.name
  category := a.category
  name := selectedName frames i a
  source := Template.render a.category (selectedName frames i a) a.frame.texts a.frame.style
  texts := a.frame.texts

/-- The components of the selected frames, in the order of the frames. -/
def selection (frames : List AnalyzedFrame) : List Component :=
  frames.zipIdx.filterMap fun p =>
    if IsSelected frames p.2 p.1 then some (selectedComponent frames p.2 p.1) else none

/-! ## The decision about one frame -/

theorem Frame.isContainer_iff (f : Frame) :
    f.isContainer = true ↔ f.texts = [] ∧ f.hasChildFrames = true := by
  simp [Frame.isContainer]

theorem Category.isSingleton_iff (c : Category) :
    c.isSingleton = true ↔ c ≠ .gallery := by
  cases c <;> decide

/-- The frames of a list that are not skipped and have the category. -/
def keptCount (frames : List AnalyzedFrame) (c : Category) : ℕ :=
  frames.countP fun b => ¬b.IsSkipped ∧ b.category = c

theorem keptCount_append_of_skipped
    {done : List AnalyzedFrame} {a : AnalyzedFrame} (h : a.IsSkipped) (c : Category) :
    keptCount (done ++ [a]) c = keptCount done c := by
  simp [keptCount, h]

theorem keptCount_append_of_kept
    {done : List AnalyzedFrame} {a : AnalyzedFrame} (h : ¬a.IsSkipped) (c : Category) :
    keptCount (done ++ [a]) c =
      keptCount done c + if c = a.category then 1 else 0 := by
  simp [keptCount, h, List.countP_singleton, eq_comm]

theorem keptCount_eq_zero_iff {frames : List AnalyzedFrame} {c : Category} :
    keptCount frames c = 0 ↔ ∀ b ∈ frames, ¬b.IsSkipped → b.category ≠ c := by
  simp [keptCount, List.countP_eq_zero]

namespace Ledger

/-- The counts of a ledger after the frames `done` were judged. -/
def Tracks (l : Ledger) (done : List AnalyzedFrame) : Prop :=
  ∀ c, l.count c =
    if c = .gallery then keptCount done c else min 1 (keptCount done c)

theorem tracks_empty : empty.Tracks [] := by
  intro c
  simp [empty, count, keptCount]

theorem judge_of_skipped
    (l : Ledger) {a : AnalyzedFrame} (h : a.IsSkipped) :
    l.judge a = l.skip := by
  by_cases hmark : a.shouldSkip = true
  · simp [judge, hmark]
  · have hcontainer : a.frame.isContainer = true := by
      rw [Frame.isContainer_iff]
      exact h.resolve_left hmark
    simp [judge, hmark, consider, hcontainer]

/-- A frame that is not skipped is a duplicate if its category is taken, and is given the next name of
its category otherwise. -/
theorem judge_of_kept
    (l : Ledger) {a : AnalyzedFrame} (h : ¬a.IsSkipped) :
    (a.category ≠ .gallery ∧ 0 < l.count a.category ∧
        (l.judge a).1 = .duplicate a.category ∧
        ∀ c, (l.judge a).2.count c = l.count c) ∨
      ((a.category = .gallery ∨ l.count a.category = 0) ∧
        (l.judge a).1 = .admitted (nameOf a.category (l.count a.category + 1)) ∧
        ∀ c, (l.judge a).2.count c =
          if c = a.category then l.count a.category + 1 else l.count c) := by
  obtain ⟨hmark, hcontainer⟩ := not_or.mp h
  rw [← Frame.isContainer_iff] at hcontainer
  have hjudge : l.judge a = l.consider a.category a.frame := by simp [judge, hmark]
  rw [hjudge]
  by_cases htaken : a.category ≠ .gallery ∧ 0 < l.count a.category
  · left
    have hcond : (a.category.isSingleton && decide (0 < l.count a.category)) = true := by
      simp [(Category.isSingleton_iff a.category).mpr htaken.1, htaken.2]
    simp only [consider, hcontainer, hcond, if_true]
    exact ⟨htaken.1, htaken.2, rfl, fun c => rfl⟩
  · right
    have hcond : ¬(a.category.isSingleton && decide (0 < l.count a.category)) = true := by
      simpa [Category.isSingleton_iff] using htaken
    have hfree : a.category = .gallery ∨ l.count a.category = 0 := by
      by_cases hc : a.category = .gallery
      · exact Or.inl hc
      · exact Or.inr (Nat.eq_zero_of_not_pos fun hpos => htaken ⟨hc, hpos⟩)
    simp only [consider, hcontainer, hcond, nextName]
    exact ⟨hfree, rfl, fun c => rfl⟩

theorem skip_tracks
    {l : Ledger} {done : List AnalyzedFrame} {a : AnalyzedFrame}
    (hl : l.Tracks done) (h : a.IsSkipped) :
    l.skip.2.Tracks (done ++ [a]) := by
  intro c
  rw [keptCount_append_of_skipped h]
  exact hl c

/-- Judging one more frame keeps the counts in step with the frames. -/
theorem judge_tracks
    {l : Ledger} {done : List AnalyzedFrame} (hl : l.Tracks done) (a : AnalyzedFrame) :
    (l.judge a).2.Tracks (done ++ [a]) := by
  by_cases h : a.IsSkipped
  · rw [judge_of_skipped l h]
    exact skip_tracks hl h
  · intro c
    have hc := hl c
    have ha := hl a.category
    rw [keptCount_append_of_kept h]
    rcases judge_of_kept l h with ⟨hgallery, hpos, -, hcount⟩ | ⟨hfree, -, hcount⟩
    · rw [hcount, hc]
      rw [if_neg hgallery] at ha
      by_cases hca : c = a.category
      · subst hca
        simp only [if_neg hgallery, if_true]
        omega
      · simp [hca]
    · rw [hcount]
      by_cases hca : c = a.category
      · subst hca
        rw [ha]
        rcases hfree with hgallery | hzero
        · simp [hgallery]
        · rw [ha] at hzero
          split at hzero <;> split <;> simp_all
      · simp [hca, hc]

end Ledger

/-! ## The run over all frames -/

theorem galleryNumber_eq (frames : List AnalyzedFrame) (i : ℕ) :
    galleryNumber frames i = keptCount (frames.take i) .gallery + 1 := rfl

/-- Behind the frames `done` a frame is selected if the ledger still has a name for it. -/
theorem isSelected_iff_of_tracks
    {l : Ledger} {done : List AnalyzedFrame} (hl : l.Tracks done)
    (a : AnalyzedFrame) (as : List AnalyzedFrame) :
    IsSelected (done ++ a :: as) done.length a ↔
      ¬a.IsSkipped ∧ (a.category = .gallery ∨ l.count a.category = 0) := by
  have ha := hl a.category
  rw [IsSelected, List.take_left', ← keptCount_eq_zero_iff]
  · by_cases hgallery : a.category = .gallery
    · simp [hgallery]
    · rw [if_neg hgallery] at ha
      simp only [hgallery, false_or, and_congr_right_iff]
      omega
  · rfl

/-- The name that the ledger gives to a selected frame. -/
theorem nameOf_eq_selectedName
    {l : Ledger} {done : List AnalyzedFrame} (hl : l.Tracks done)
    {a : AnalyzedFrame} (as : List AnalyzedFrame)
    (hfree : a.category = .gallery ∨ l.count a.category = 0) :
    Ledger.nameOf a.category (l.count a.category + 1) =
      selectedName (done ++ a :: as) done.length a := by
  have ha := hl a.category
  rw [selectedName, galleryNumber_eq, List.take_left' rfl]
  by_cases hgallery : a.category = .gallery
  · rw [hgallery, if_pos rfl] at ha
    rw [hgallery, ha]
    by_cases hfirst : keptCount done .gallery = 0
    · simp [Ledger.nameOf, hfirst]
    · have hmany : ¬keptCount done .gallery + 1 ≤ 1 := by omega
      have hsecond : 2 ≤ keptCount done .gallery + 1 := by omega
      simp only [Ledger.nameOf, if_neg hmany, hsecond, and_self, if_true]
  · have hzero := hfree.resolve_left hgallery
    simp [Ledger.nameOf, hzero, hgallery]

/-- From a ledger that tracks the frames `done`, admitting the frames behind them gives their part of
the selection. -/
theorem admitFrames_eq_of_tracks
    {l : Ledger} {done : List AnalyzedFrame} (hl : l.Tracks done) (as : List AnalyzedFrame) :
    (l.admitFrames as).1 =
      (as.zipIdx done.length).filterMap fun p =>
        if IsSelected (done ++ as) p.2 p.1 then
          some (selectedComponent (done ++ as) p.2 p.1)
        else none := by
  induction as generalizing l done with
  | nil => rfl
  | cons a as ih =>
      have hrest := ih (Ledger.judge_tracks hl a)
      rw [List.append_assoc, List.singleton_append, List.length_append,
        List.length_singleton] at hrest
      rw [List.zipIdx_cons, List.filterMap_cons]
      by_cases hskip : a.IsSkipped
      · have hnot : ¬IsSelected (done ++ a :: as) done.length a := fun h => h.1 hskip
        rw [if_neg hnot, ← hrest]
        simp [Ledger.admitFrames, Ledger.judge_of_skipped l hskip, Ledger.skip]
      · rcases Ledger.judge_of_kept l hskip with
          ⟨hgallery, hpos, hjudge, -⟩ | ⟨hfree, hjudge, -⟩
        · have hnot : ¬IsSelected (done ++ a :: as) done.length a := by
            rw [isSelected_iff_of_tracks hl]
            rintro ⟨-, hg | hz⟩
            · exact hgallery hg
            · omega
          rw [if_neg hnot, ← hrest]
          simp [Ledger.admitFrames, hjudge]
        · have hselected : IsSelected (done ++ a :: as) done.length a :=
            (isSelected_iff_of_tracks hl a as).mpr ⟨hskip, hfree⟩
          rw [if_pos hselected, ← hrest]
          simp [Ledger.admitFrames, hjudge, AnalyzedFrame.component,
            nameOf_eq_selectedName hl as hfree, selectedComponent]

/-- Admitting frames one after the other gives the components of the selected frames. -/
theorem admitFrames_empty (frames : List AnalyzedFrame) :
    (Ledger.empty.admitFrames frames).1 = selection frames := by
  have h := admitFrames_eq_of_tracks Ledger.tracks_empty frames
  simpa [selection] using h

end DesignPages
