import DesignPages.Proofs.Generation

/-!
# Diagnostics of a generation

The ledger counts what becomes of every frame while the frames go by.  This module says what its counts
amount to at the end, in terms of the frames alone: a frame is skipped by itself, it is a duplicate
because of a frame before it, and otherwise it becomes a component.

The run is followed as a sum.  Every decision adds the tally of one frame, so that a run adds the
tallies of its frames to whatever the ledger had counted before.
-/

namespace DesignPages

/-! ## Duplicates -/

/-- The frame `a` at position `i` is a duplicate: it is not skipped, its category has at most one
component, and a frame before it that is not skipped has the same category. -/
def IsDuplicate (frames : List AnalyzedFrame) (i : ℕ) (a : AnalyzedFrame) : Prop :=
  ¬a.IsSkipped ∧ a.category.isSingleton = true ∧
    ∃ b ∈ frames.take i, ¬b.IsSkipped ∧ b.category = a.category

instance (frames : List AnalyzedFrame) (i : ℕ) (a : AnalyzedFrame) :
    Decidable (IsDuplicate frames i a) :=
  inferInstanceAs (Decidable (_ ∧ _))

/-- A frame that is not skipped is a duplicate or is selected, and not both. -/
theorem isDuplicate_iff (frames : List AnalyzedFrame) (i : ℕ) (a : AnalyzedFrame) :
    IsDuplicate frames i a ↔ ¬a.IsSkipped ∧ ¬IsSelected frames i a := by
  rw [IsDuplicate, IsSelected, Category.isSingleton_iff]
  push Not
  tauto

/-! ## Tallies -/

/-- The diagnostics of some frames and of others together. -/
instance : Add Diagnostics :=
  ⟨fun d e =>
    ⟨d.totalFrames + e.totalFrames, d.generatedComponents + e.generatedComponents,
      d.skippedFrames + e.skippedFrames, d.rejectedDuplicates + e.rejectedDuplicates⟩⟩

/-- The diagnostics of a single frame. -/
def Admission.tally : Admission → Diagnostics
  | admitted _ => ⟨1, 1, 0, 0⟩
  | container => ⟨1, 0, 1, 0⟩
  | duplicate _ => ⟨1, 0, 0, 1⟩

/-- Every frame is counted once for what became of it. -/
def Diagnostics.IsBalanced (d : Diagnostics) : Prop :=
  d.totalFrames = d.generatedComponents + d.skippedFrames + d.rejectedDuplicates

namespace Diagnostics

theorem add_def (d e : Diagnostics) :
    d + e =
      ⟨d.totalFrames + e.totalFrames, d.generatedComponents + e.generatedComponents,
        d.skippedFrames + e.skippedFrames, d.rejectedDuplicates + e.rejectedDuplicates⟩ := rfl

theorem add_assoc (d e f : Diagnostics) : d + e + f = d + (e + f) := by
  simp only [add_def, Nat.add_assoc]

theorem zero_add (d : Diagnostics) : (⟨0, 0, 0, 0⟩ : Diagnostics) + d = d := by
  simp only [add_def, Nat.zero_add]

theorem IsBalanced.add {d e : Diagnostics} (hd : d.IsBalanced) (he : e.IsBalanced) :
    (d + e).IsBalanced := by
  unfold IsBalanced at hd he ⊢
  simp only [add_def, hd, he]
  omega

theorem isBalanced_tally (admission : Admission) : admission.tally.IsBalanced := by
  cases admission <;> rfl

end Diagnostics

namespace Ledger

/-! ## One decision -/

/-- A decision is counted as what it is. -/
theorem judge_diagnostics (l : Ledger) (a : AnalyzedFrame) :
    (l.judge a).2.diagnostics = l.diagnostics + (l.judge a).1.tally := by
  unfold judge consider
  split_ifs <;> rfl

theorem judge_isBalanced {l : Ledger} (hl : l.diagnostics.IsBalanced) (a : AnalyzedFrame) :
    (l.judge a).2.diagnostics.IsBalanced := by
  rw [judge_diagnostics]
  exact hl.add (Diagnostics.isBalanced_tally _)

/-- Behind the frames `done` a frame is skipped, turned down as a duplicate, or admitted, according to
what it is among these frames. -/
theorem judge_cases {l : Ledger} {done : List AnalyzedFrame} (hl : l.Tracks done)
    (a : AnalyzedFrame) (as : List AnalyzedFrame) :
    (a.IsSkipped ∧ (l.judge a).1 = .container) ∨
      (IsDuplicate (done ++ a :: as) done.length a ∧ (l.judge a).1 = .duplicate a.category) ∨
      (IsSelected (done ++ a :: as) done.length a ∧ ∃ name, (l.judge a).1 = .admitted name) := by
  by_cases hskip : a.IsSkipped
  · left
    rw [judge_of_skipped l hskip]
    exact ⟨hskip, rfl⟩
  · right
    rw [isDuplicate_iff, isSelected_iff_of_tracks hl]
    rcases judge_of_kept l hskip with ⟨hgallery, hpos, hjudge, -⟩ | ⟨hfree, hjudge, -⟩
    · have htaken : ¬(a.category = .gallery ∨ l.count a.category = 0) :=
        not_or_intro hgallery (Nat.ne_of_gt hpos)
      exact .inl ⟨⟨hskip, fun h => htaken h.2⟩, hjudge⟩
    · exact .inr ⟨⟨hskip, hfree⟩, _, hjudge⟩

/-! ## The run over all frames -/

/-- The component of an admitted frame stands in front of those of the frames behind it. -/
theorem admitFrames_cons (l : Ledger) (a : AnalyzedFrame) (as : List AnalyzedFrame) :
    (l.admitFrames (a :: as)).2 = ((l.judge a).2.admitFrames as).2 ∧
      (l.admitFrames (a :: as)).1.length =
        ((l.judge a).2.admitFrames as).1.length + (l.judge a).1.tally.generatedComponents := by
  cases hjudge : (l.judge a).1 <;> simp [admitFrames, hjudge, Admission.tally]

theorem admitFrames_isBalanced {l : Ledger} (hl : l.diagnostics.IsBalanced)
    (as : List AnalyzedFrame) : (l.admitFrames as).2.diagnostics.IsBalanced := by
  induction as generalizing l with
  | nil => exact hl
  | cons a as ih =>
      rw [(admitFrames_cons l a as).1]
      exact ih (judge_isBalanced hl a)

/-- From a ledger that tracks the frames `done`, a run adds the tallies of the frames behind them. -/
theorem admitFrames_diagnostics {l : Ledger} {done : List AnalyzedFrame} (hl : l.Tracks done)
    (as : List AnalyzedFrame) :
    (l.admitFrames as).2.diagnostics =
      l.diagnostics +
        ⟨as.length, (l.admitFrames as).1.length, as.countP fun a => a.IsSkipped,
          (as.zipIdx done.length).countP fun p => IsDuplicate (done ++ as) p.2 p.1⟩ := by
  induction as generalizing l done with
  | nil => rfl
  | cons a as ih =>
      have hrest := ih (judge_tracks hl a)
      rw [List.append_assoc, List.singleton_append, List.length_append,
        List.length_singleton] at hrest
      obtain ⟨hledger, hlength⟩ := admitFrames_cons l a as
      rw [hledger, hrest, judge_diagnostics, Diagnostics.add_assoc, hlength, List.length_cons,
        List.countP_cons, List.zipIdx_cons, List.countP_cons]
      congr 1
      have hdup := isDuplicate_iff (done ++ a :: as) done.length a
      rcases judge_cases hl a as with ⟨hskip, hjudge⟩ | ⟨hduplicate, hjudge⟩ | ⟨hselected, name, hjudge⟩
      · have hnot : ¬IsDuplicate (done ++ a :: as) done.length a := fun h => h.1 hskip
        simp [hjudge, Admission.tally, Diagnostics.add_def, hskip, hnot, Nat.add_comm]
      · simp [hjudge, Admission.tally, Diagnostics.add_def, hduplicate, hduplicate.1, Nat.add_comm]
      · have hnot : ¬IsDuplicate (done ++ a :: as) done.length a := fun h =>
          (hdup.mp h).2 hselected
        simp [hjudge, Admission.tally, Diagnostics.add_def, hselected.1, hnot, Nat.add_comm]

end Ledger

/-! ## Frames of a design -/

namespace Tree

variable {α : Type}

mutual

/-- How many values in a tree have a property. -/
def count (P : α → Bool) : Tree α → ℕ
  | node a ts => (if P a then 1 else 0) + countAll P ts

/-- How many values in the trees of a list have a property. -/
def countAll (P : α → Bool) : List (Tree α) → ℕ
  | [] => 0
  | t :: ts => count P t + countAll P ts

end

mutual

theorem countP_subtrees (P : α → Bool) (t : Tree α) :
    t.subtrees.countP (fun s => P s.value) = t.count P := by
  cases t with
  | node a ts =>
      rw [subtrees, List.countP_cons, countP_subtreesAll P ts, count, Nat.add_comm]
      rfl

theorem countP_subtreesAll (P : α → Bool) (ts : List (Tree α)) :
    (subtreesAll ts).countP (fun s => P s.value) = countAll P ts := by
  cases ts with
  | nil => rfl
  | cons t ts =>
      rw [subtreesAll, List.countP_append, countP_subtrees P t, countP_subtreesAll P ts, countAll]

end

end Tree

/-- The analysis has one entry for every frame of a design. -/
theorem Design.length_analyze (options : Options) (root : Option Design) :
    (Design.analyze options root).length = root.elim 0 (Tree.count Layer.isFrame) := by
  cases root with
  | none => rfl
  | some d =>
      rw [Design.analyze, List.length_map, Design.extract, List.length_map, Design.frames,
        ← List.countP_eq_length_filter, Tree.countP_subtrees]
      rfl

namespace Compilation

/-- The diagnostics of a page account for every frame.  Each is counted once: as skipped, as a duplicate
of a frame before it, or with the component that it became; and the frames of a design that was
analyzed are all of its frame layers. -/
theorem generate_counts_frames (options : Options) :
    (∀ frames, ∃ c, generate options frames = .ok c ∧
      c.diagnostics.totalFrames = frames.length ∧
      c.diagnostics.generatedComponents = c.page.components.length ∧
      c.diagnostics.skippedFrames = frames.countP (fun a => a.IsSkipped) ∧
      c.diagnostics.rejectedDuplicates =
        frames.zipIdx.countP (fun p => IsDuplicate frames p.2 p.1) ∧
      c.diagnostics.totalFrames = c.diagnostics.generatedComponents +
        c.diagnostics.skippedFrames + c.diagnostics.rejectedDuplicates) ∧
    ∀ (analysis : Options) (root : Option Design),
      ∃ c, generate options (Design.analyze analysis root) = .ok c ∧
        c.diagnostics.totalFrames = root.elim 0 (Tree.count Layer.isFrame) := by
  have hrun (frames : List AnalyzedFrame) :
      (Ledger.empty.admitFrames frames).2.diagnostics =
        ⟨frames.length, (selection frames).length, frames.countP fun a => a.IsSkipped,
          frames.zipIdx.countP fun p => IsDuplicate frames p.2 p.1⟩ := by
    rw [Ledger.admitFrames_diagnostics Ledger.tracks_empty, admitFrames_empty]
    exact Diagnostics.zero_add _
  constructor
  · intro frames
    refine ⟨_, generate_eq options frames, ?_, ?_, ?_, ?_, ?_⟩
    · rw [hrun]
    · rw [hrun]
      exact (Page.order_perm _).length_eq.symm
    · rw [hrun]
    · rw [hrun]
    · exact Ledger.admitFrames_isBalanced (l := Ledger.empty) rfl frames
  · intro analysis root
    refine ⟨_, generate_eq options _, ?_⟩
    rw [hrun]
    exact Design.length_analyze analysis root

end Compilation
end DesignPages
