import DesignPages.CommandLine.Action

/-!
# Runs of actions

An action that is followed by another runs up to its result or its failure, and only a result lets the
other one run.  Changes that are made one after the other leave what was printed as it is, and they
fail only at one of them.
-/

namespace DesignPages
namespace CommandLine
namespace Action

variable {σ α β : Type} {w : World σ} {s t : Session σ} {m : Action α}

/-! ## Single operations -/

@[simp]
theorem run_ofExcept (x : Except Failure α) : (ofExcept x).run w s = (x, s) := by
  cases x <;> rfl

@[simp]
theorem run_readStandard : readStandard.run w s = (.ok (w.standard s.place), s) := rfl

@[simp]
theorem run_readFile (path : String) :
    (readFile path).run w s = (.ok (w.file s.place path), s) := rfl

@[simp]
theorem run_print (text : String) :
    (print text).run w s = (.ok (), { s with output := s.output ++ text }) := rfl

@[simp]
theorem run_report (text : String) :
    (report text).run w s = (.ok (), { s with summary := some text }) := rfl

/-- A change is made, or it fails and leaves everything as it is. -/
theorem run_change_cases (w : World σ) (s : Session σ) (step : Step) :
    (∃ place, (change step).run w s = (.ok (), { s with place := place })) ∨
      (change step).run w s = (.error step.failure, s) := by
  rw [change, run, Session.reply]
  cases w.change? s.place step with
  | some place => exact .inl ⟨place, rfl⟩
  | none => exact .inr rfl

/-! ## One action after another -/

theorem run_bind (m : Action α) (f : α → Action β) (s : Session σ) :
    (m >>= f).run w s =
      match m.run w s with
      | (.ok a, t) => (f a).run w t
      | (.error e, t) => (.error e, t) := by
  induction m generalizing s with
  | done a => rfl
  | fail e => rfl
  | perform operation next ih => exact ih _ _

theorem run_bind_of_ok {a : α} (h : m.run w s = (.ok a, t)) (f : α → Action β) :
    (m >>= f).run w s = (f a).run w t := by
  rw [run_bind, h]

theorem run_bind_of_error {e : Failure} (h : m.run w s = (.error e, t)) (f : α → Action β) :
    (m >>= f).run w s = (.error e, t) := by
  rw [run_bind, h]

/-- The changes are all made, or they end at one that cannot be made. -/
theorem run_changeAll (w : World σ) (steps : List Step) (s : Session σ) :
    ∃ result place, (changeAll steps).run w s = (result, { s with place := place }) ∧
      ∀ e, result = .error e → ∃ step ∈ steps, e = step.failure := by
  induction steps generalizing s with
  | nil => exact ⟨.ok (), s.place, rfl, fun e h => absurd h (by simp)⟩
  | cons step steps ih =>
      rcases run_change_cases w s step with ⟨place, hmade⟩ | hfailed
      · obtain ⟨result, after, hrun, hresult⟩ := ih { s with place := place }
        refine ⟨result, after, (run_bind_of_ok hmade _).trans hrun, fun e he => ?_⟩
        obtain ⟨step', hmem, hstep⟩ := hresult e he
        exact ⟨step', List.mem_cons_of_mem _ hmem, hstep⟩
      · refine ⟨.error step.failure, s.place, run_bind_of_error hfailed _, fun e he => ?_⟩
        exact ⟨step, List.mem_cons_self, (Except.error.inj he).symm⟩

end Action
end CommandLine
end DesignPages
