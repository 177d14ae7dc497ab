import DesignPages.Proofs.Frame.Naming
import Mathlib.Data.List.Nodup

/-!
# Histories of ledgers

A ledger can be asked about a frame, told to skip one, and asked for the next name of a category, in
any order.  This module follows it through all calls from the empty ledger on and compares it with
the history, which holds every call together with its answer.  The main statement is that the ledger
gives a true account of its history: its counts are those of the names given out, no name is given out
twice, and its diagnostics are those of the decisions.

The invariant behind it says that only names with a number up to the count of their category were
given out, so that the next one is new.
-/

namespace DesignPages
namespace Ledger

/-- A call on a ledger. -/
inductive Call where
  | consider (c : Category) (f : Frame)
  | skip
  | nextName (c : Category)

/-- A call together with its answer. -/
inductive Event where
  | considered (c : Category) (f : Frame) (answer : Admission)
  | skipped (answer : Admission)
  | named (c : Category) (name : String)

/-- Answers a call. -/
def answer (l : Ledger) : Call → Event × Ledger
  | .consider c f => (.considered c f (l.consider c f).1, (l.consider c f).2)
  | .skip => (.skipped l.skip.1, l.skip.2)
  | .nextName c => (.named c (l.nextName c).1, (l.nextName c).2)

/-- Answers calls one after the other.  The result holds the history and the ledger at the end. -/
def run : Ledger → List Call → List Event × Ledger
  | l, [] => ([], l)
  | l, call :: calls =>
    let (e, l) := l.answer call
    let (es, l) := run l calls
    (e :: es, l)

/-! ## What a history tells -/

namespace Event

/-- The call that was answered. -/
def call : Event → Call
  | considered c f _ => .consider c f
  | skipped _ => .skip
  | named c _ => .nextName c

/-- The name that was given out, if there was one. -/
def name? : Event → Option String
  | considered _ _ (.admitted name) => some name
  | skipped (.admitted name) => some name
  | named _ name => some name
  | _ => none

/-- Whether a frame was decided about. -/
def isDecision : Event → Bool
  | named _ _ => false
  | _ => true

/-- Whether a frame was admitted. -/
def isAdmission (e : Event) : Bool :=
  e.isDecision && e.name?.isSome

/-- Whether a frame was admitted under a category. -/
def isAdmissionTo (c : Category) : Event → Bool
  | considered d _ (.admitted _) => d = c
  | _ => false

/-- Whether a name of a category was given out without a frame. -/
def isNamingOf (c : Category) : Event → Bool
  | named d _ => d = c
  | _ => false

/-- Whether a name of a category was given out. -/
def givesNameTo (c : Category) (e : Event) : Bool :=
  e.isAdmissionTo c || e.isNamingOf c

theorem givesNameTo_of_isAdmissionTo {c : Category} {e : Event} (h : e.isAdmissionTo c = true) :
    e.givesNameTo c = true := by
  simp [givesNameTo, h]

theorem givesNameTo_of_isNamingOf {c : Category} {e : Event} (h : e.isNamingOf c = true) :
    e.givesNameTo c = true := by
  simp [givesNameTo, h]

end Event

/-- The history holds every call, in order. -/
theorem map_call_run (l : Ledger) (calls : List Call) :
    (l.run calls).1.map Event.call = calls := by
  induction calls generalizing l with
  | nil => rfl
  | cons call calls ih =>
      have hcall : (l.answer call).1.call = call := by cases call <;> rfl
      simp only [run, List.map_cons, hcall, ih]

/-! ## What one call can do -/

/-- What a call can do to a ledger: it gives out the next name of a category, with a frame or without
one, or it counts a frame that is turned down. -/
inductive Move (l : Ledger) : Event → Ledger → Prop
  | accept (c : Category) (f : Frame) (hfree : c.isSingleton = true → l.count c = 0) :
      Move l (.considered c f (.admitted (nameOf c (l.count c + 1))))
        { (l.nextName c).2 with diagnostics :=
            { l.diagnostics with
              totalFrames := l.diagnostics.totalFrames + 1
              generatedComponents := l.diagnostics.generatedComponents + 1 } }
  | name (c : Category) :
      Move l (.named c (nameOf c (l.count c + 1))) (l.nextName c).2
  | contain (c : Category) (f : Frame) : Move l (.considered c f .container) l.skip.2
  | skip : Move l (.skipped .container) l.skip.2
  | repel (c : Category) (f : Frame) :
      Move l (.considered c f (.duplicate c))
        { l with diagnostics :=
            { l.diagnostics with
              totalFrames := l.diagnostics.totalFrames + 1
              rejectedDuplicates := l.diagnostics.rejectedDuplicates + 1 } }

theorem move_consider (l : Ledger) (c : Category) (f : Frame) :
    Move l (.considered c f (l.consider c f).1) (l.consider c f).2 := by
  unfold consider
  split_ifs with hcontainer htaken
  · exact .contain c f
  · exact .repel c f
  · refine .accept c f fun hsingleton => ?_
    simpa [hsingleton] using htaken

/-- Every call does one of these things. -/
theorem move_answer (l : Ledger) (call : Call) : Move l (l.answer call).1 (l.answer call).2 := by
  cases call with
  | consider c f => exact move_consider l c f
  | skip => exact .skip
  | nextName c => exact .name c

namespace Move

variable {l l' : Ledger} {e : Event}

theorem count_eq (h : Move l e l') (c : Category) :
    l'.count c = l.count c + if e.givesNameTo c = true then 1 else 0 := by
  have hnext (d : Category) (g : Event.givesNameTo c e = decide (d = c)) :
      (l.nextName d).2.count c = l.count c + if e.givesNameTo c = true then 1 else 0 := by
    simp only [g, decide_eq_true_eq]
    by_cases hc : c = d
    · simp [nextName, count, hc]
    · simp [nextName, count, hc, Ne.symm hc]
  cases h with
  | accept d f _ => exact hnext d (Bool.or_false _)
  | name d => exact hnext d (Bool.false_or _)
  | contain d f => rfl
  | skip => rfl
  | repel d f => rfl

/-- A name that is given out is the next one of its category. -/
theorem exists_of_name? (h : Move l e l') {name : String} (hname : e.name? = some name) :
    ∃ c, e.givesNameTo c = true ∧ name = nameOf c (l.count c + 1) := by
  cases h with
  | accept c f _ => exact ⟨c, by simp [Event.givesNameTo, Event.isAdmissionTo],
      (Option.some.inj hname).symm⟩
  | name c => exact ⟨c, by simp [Event.givesNameTo, Event.isNamingOf],
      (Option.some.inj hname).symm⟩
  | contain c f => contradiction
  | skip => contradiction
  | repel c f => contradiction

theorem givesNameTo_of_name?_eq_none (h : Move l e l') (hname : e.name? = none) (c : Category) :
    e.givesNameTo c = false := by
  cases h with
  | accept d f _ => contradiction
  | name d => contradiction
  | contain d f => rfl
  | skip => rfl
  | repel d f => rfl

/-- A frame is admitted to a category without repetition only as long as it has no name. -/
theorem count_eq_zero (h : Move l e l') {c : Category} (hc : c.isSingleton = true)
    (hadmitted : e.isAdmissionTo c = true) : l.count c = 0 := by
  cases h with
  | accept d f hfree =>
      obtain rfl : d = c := by simpa [Event.isAdmissionTo] using hadmitted
      exact hfree hc
  | name d => contradiction
  | contain d f => contradiction
  | skip => contradiction
  | repel d f => contradiction

/-- A decision is counted once in all and once for what became of the frame. -/
theorem diagnostics (h : Move l e l') :
    l'.diagnostics.totalFrames = l.diagnostics.totalFrames + (if e.isDecision = true then 1 else 0) ∧
      l'.diagnostics.generatedComponents =
        l.diagnostics.generatedComponents + (if e.isAdmission = true then 1 else 0) ∧
      l'.diagnostics.generatedComponents + l'.diagnostics.skippedFrames +
          l'.diagnostics.rejectedDuplicates =
        l.diagnostics.generatedComponents + l.diagnostics.skippedFrames +
          l.diagnostics.rejectedDuplicates + if e.isDecision = true then 1 else 0 := by
  have hskip (g s r : ℕ) : g + (s + 1) + r = g + s + r + 1 := by omega
  have hadmit (g s r : ℕ) : g + 1 + s + r = g + s + r + 1 := by omega
  cases h with
  | accept c f _ => exact ⟨rfl, rfl, hadmit _ _ _⟩
  | name c => exact ⟨rfl, rfl, rfl⟩
  | contain c f => exact ⟨rfl, rfl, hskip _ _ _⟩
  | skip => exact ⟨rfl, rfl, hskip _ _ _⟩
  | repel c f => exact ⟨rfl, rfl, rfl⟩

end Move

/-! ## The account of a history -/

/-- A ledger gives a true account of a history. -/
structure Account (l : Ledger) (done : List Event) : Prop where
  count : ∀ c, l.count c = done.countP (Event.givesNameTo c)
  numbered : ∀ name ∈ done.filterMap Event.name?, ∃ c k, 1 ≤ k ∧ k ≤ l.count c ∧ name = nameOf c k
  distinct : (done.filterMap Event.name?).Nodup
  first : ∀ c, c.isSingleton = true →
    done.Pairwise fun d e => ¬(d.givesNameTo c = true ∧ e.isAdmissionTo c = true)
  decisions : l.diagnostics.totalFrames = done.countP Event.isDecision
  admissions : l.diagnostics.generatedComponents = done.countP Event.isAdmission
  sum : l.diagnostics.totalFrames = l.diagnostics.generatedComponents +
    l.diagnostics.skippedFrames + l.diagnostics.rejectedDuplicates

theorem account_empty : empty.Account [] where
  count _ := rfl
  numbered _ h := absurd h List.not_mem_nil
  distinct := List.nodup_nil
  first _ _ := List.Pairwise.nil
  decisions := rfl
  admissions := rfl
  sum := rfl

namespace Account

variable {l l' : Ledger} {done : List Event} {e : Event}

/-- The next name of a category was not given out before. -/
theorem nextName_not_mem (h : l.Account done) (c : Category) :
    nameOf c (l.count c + 1) ∉ done.filterMap Event.name? := by
  intro hmem
  obtain ⟨d, k, hk, hle, hname⟩ := h.numbered _ hmem
  obtain ⟨rfl, hnumber⟩ := nameOf_injective (Nat.succ_pos _) hk (congrArg foldCase hname)
  omega

theorem numbered_move (h : l.Account done) (hmove : Move l e l') :
    ∀ name ∈ (done ++ [e]).filterMap Event.name?,
      ∃ c k, 1 ≤ k ∧ k ≤ l'.count c ∧ name = nameOf c k := by
  intro name hname
  rw [List.filterMap_append, List.mem_append] at hname
  rcases hname with hname | hname
  · obtain ⟨c, k, hk, hle, rfl⟩ := h.numbered name hname
    refine ⟨c, k, hk, ?_, rfl⟩
    rw [hmove.count_eq]
    omega
  · obtain ⟨d, hd, hlast⟩ := List.mem_filterMap.mp hname
    obtain rfl := List.mem_singleton.mp hd
    obtain ⟨c, hgives, rfl⟩ := hmove.exists_of_name? hlast
    have hnext : l'.count c = l.count c + 1 := by rw [hmove.count_eq, if_pos hgives]
    exact ⟨c, l.count c + 1, Nat.succ_pos _, Nat.le_of_eq hnext.symm, rfl⟩

theorem distinct_move (h : l.Account done) (hmove : Move l e l') :
    ((done ++ [e]).filterMap Event.name?).Nodup := by
  rw [List.filterMap_append]
  cases hname : e.name? with
  | none => simpa [hname] using h.distinct
  | some name =>
      obtain ⟨c, -, rfl⟩ := hmove.exists_of_name? hname
      have hnew := h.nextName_not_mem c
      rw [List.filterMap_cons_some hname, List.filterMap_nil]
      exact List.nodup_append_comm.mp (List.nodup_cons.mpr ⟨hnew, h.distinct⟩)

theorem first_move (h : l.Account done) (hmove : Move l e l') {c : Category}
    (hc : c.isSingleton = true) :
    (done ++ [e]).Pairwise fun d e => ¬(d.givesNameTo c = true ∧ e.isAdmissionTo c = true) := by
  rw [List.pairwise_append]
  refine ⟨h.first c hc, List.pairwise_singleton _ _, ?_⟩
  intro d hd e' he' hboth
  obtain rfl := List.mem_singleton.mp he'
  have hzero := hmove.count_eq_zero hc hboth.2
  rw [h.count c, List.countP_eq_zero] at hzero
  exact hzero d hd hboth.1

/-- Every call keeps the account true. -/
theorem move (h : l.Account done) (hmove : Move l e l') : l'.Account (done ++ [e]) := by
  obtain ⟨htotal, hgenerated, hsum⟩ := hmove.diagnostics
  refine ⟨?_, h.numbered_move hmove, h.distinct_move hmove, fun c => h.first_move hmove, ?_, ?_, ?_⟩
  · intro c
    rw [hmove.count_eq, List.countP_append, List.countP_singleton, h.count]
  · rw [htotal, List.countP_append, List.countP_singleton, h.decisions]
  · rw [hgenerated, List.countP_append, List.countP_singleton, h.admissions]
  · rw [htotal, hsum, h.sum]

/-- From a ledger with a true account on, the account stays true through all calls. -/
theorem run (h : l.Account done) (calls : List Call) :
    (l.run calls).2.Account (done ++ (l.run calls).1) := by
  induction calls generalizing l done with
  | nil => simpa [Ledger.run] using h
  | cons call calls ih =>
      have hrest := ih (h.move (l.move_answer call))
      simpa [Ledger.run] using hrest

/-- A category without repetition admits at most one frame. -/
theorem countP_isAdmissionTo_le_one (h : l.Account done) {c : Category}
    (hc : c.isSingleton = true) : done.countP (Event.isAdmissionTo c) ≤ 1 := by
  have hpair : (done.filter (Event.isAdmissionTo c)).Pairwise fun _ _ => False := by
    refine ((h.first c hc).filter _).imp_of_mem ?_
    intro d e hd he hboth
    have hd' := (List.mem_filter.mp hd).2
    exact hboth ⟨Event.givesNameTo_of_isAdmissionTo hd', (List.mem_filter.mp he).2⟩
  rw [List.countP_eq_length_filter]
  match hlist : done.filter (Event.isAdmissionTo c) with
  | [] => exact Nat.zero_le 1
  | [_] => exact Nat.le_refl 1
  | d :: e :: es =>
      rw [hlist, List.pairwise_cons] at hpair
      exact (hpair.1 e List.mem_cons_self).elim

end Account

/-- Whatever calls are made on the empty ledger, in any order: no name is given out twice, and the
count of a category is the number of names given out for it.  A category without repetition admits at
most one frame, and none once a name was given out for it without a frame.  The diagnostics count
every decision once.  Skipping a frame and every other call that gives out no name change no count. -/
theorem run_empty_accounts (calls : List Call) :
    let done := (empty.run calls).1
    let l := (empty.run calls).2
    done.map Event.call = calls ∧
      (done.filterMap Event.name?).Nodup ∧
      (∀ c, l.count c = done.countP (Event.givesNameTo c)) ∧
      (∀ c, c.isSingleton = true → done.countP (Event.isAdmissionTo c) ≤ 1 ∧
        done.Pairwise fun d e => d.isNamingOf c = true → e.isAdmissionTo c = false) ∧
      l.diagnostics.totalFrames = l.diagnostics.generatedComponents + l.diagnostics.skippedFrames +
        l.diagnostics.rejectedDuplicates ∧
      l.diagnostics.totalFrames = done.countP Event.isDecision ∧
      l.diagnostics.generatedComponents = done.countP Event.isAdmission ∧
      (∀ c, l.skip.2.count c = l.count c) ∧
      ∀ call, (l.answer call).1.name? = none → ∀ c, (l.answer call).2.count c = l.count c := by
  intro done l
  have h : l.Account done := account_empty.run calls
  refine ⟨map_call_run empty calls, h.distinct, h.count, ?_, h.sum, h.decisions, h.admissions,
    fun c => rfl, ?_⟩
  · intro c hc
    refine ⟨h.countP_isAdmissionTo_le_one hc, (h.first c hc).imp ?_⟩
    intro d e hboth hnaming
    rw [← Bool.not_eq_true]
    exact fun hadmitted => hboth ⟨Event.givesNameTo_of_isNamingOf hnaming, hadmitted⟩
  · intro call hname c
    have hmove := l.move_answer call
    rw [hmove.count_eq, hmove.givesNameTo_of_name?_eq_none hname]
    rfl

end Ledger
end DesignPages
