import SuiteGate.Proofs.Cli.Work
import SuiteGate.Proofs.Gate.Faults
/-!
# Exit codes

What the exit code of the program says about the run that ended with it.  A command first finds its
suite, which touches nothing (`Step.Prepares`), and then does its work, whose errors are late ones
(`Step.Works`).  So after a failure with an early error nothing was done (`Step.Orderly`).  Only
the gate command ends with the failure of a task (`of_fst_gate_eq_error`).

The headline is `run_exitCode`: after 2 or 5 nothing was done, 3 means that the gate ran a task
whose action ended with an error, of whatever kind, and 0 means success.  In an environment with a
variable that the system does not take back, such as one whose name starts with `=`, the gate ends
in a panic instead (`panic_hides_task_failure`).
-/

namespace SuiteGate.Cli

/-! ### Codes of failures -/

namespace Failure

/-- The code of a failed task is that of no other failure. -/
theorem exitCode_eq_three_iff {f : Failure} : f.exitCode = 3 ↔ ∃ task e, f = .gate task e := by
  cases f with
  | operation e => cases e <;> simp [exitCode, codeOfError]
  | _ => simp [exitCode]

/-- A failure of the work: neither an early error nor the failure of a task. -/
def IsOfWork (f : Failure) : Prop :=
  f.exitCode ≠ 2 ∧ f.exitCode ≠ 3 ∧ f.exitCode ≠ 5

theorem isOfWork_of_not_isEarly {e : Error} (h : ¬ e.IsEarly) : (operation e).IsOfWork := by
  cases e with
  | config _ => exact absurd trivial h
  | usage _ => exact absurd trivial h
  | staleness _ => exact absurd trivial h
  | _ => simp [IsOfWork, exitCode, codeOfError]

theorem isEarly_of_exitCode {e : Error}
    (h : (operation e).exitCode = 2 ∨ (operation e).exitCode = 5) : e.IsEarly := by
  by_contra hlate
  obtain ⟨htwo, -, hfive⟩ := isOfWork_of_not_isEarly hlate
  exact h.elim htwo hfive

theorem isOfWork_panic : panic.IsOfWork := by
  simp [IsOfWork, exitCode]

theorem isOfWork_io (e : IoError) : (io e).IsOfWork := by
  simp [IsOfWork, exitCode]

end Failure

/-! ### Steps -/

theorem mapError_eq_error_iff {ε δ α : Type} {f : ε → δ} {r : Except ε α} {y : δ} :
    r.mapError f = .error y ↔ ∃ x, r = .error x ∧ f x = y := by
  cases r <;> simp [Except.mapError]

namespace Step

section

variable {α β : Type}

/-- **One step after another.** -/
theorem run_bind (step : Step α) (f : α → Step β) (w : World) :
    (step >>= f).run.run w =
      match step.run.run w with
      | (.ok a, w') => (f a).run.run w'
      | (.error e, w') => (.error e, w') := by
  change (step.run >>= ExceptT.bindCont f).run w = _
  change (ExceptT.bindCont f (step.run.run w).1).run (step.run.run w).2 = _
  rcases step.run.run w with ⟨e | a, w'⟩ <;> rfl

/-- A series ends with a failure if its first step does, or the next one does behind it. -/
theorem error_of_run_bind {step : Step α} {f : α → Step β} {w : World} {x : Failure}
    (h : ((step >>= f).run.run w).1 = .error x) :
    ((step.run.run w).1 = .error x ∧ ((step >>= f).run.run w).2 = (step.run.run w).2) ∨
      ∃ a v, step.run.run w = (.ok a, v) ∧ ((f a).run.run v).1 = .error x ∧
        ((step >>= f).run.run w).2 = ((f a).run.run v).2 := by
  rw [run_bind] at h ⊢
  rcases hrun : step.run.run w with ⟨e | a, v⟩
  · rw [hrun] at h
    exact .inl ⟨congrArg _ (Except.error.inj h), rfl⟩
  · rw [hrun] at h
    exact .inr ⟨a, v, rfl, h, rfl⟩

/-- How an operation ends as a part of a command, if it does not end with a result. -/
def failureOf : Fault → Failure
  | .error e => .operation e
  | .panic => .panic

theorem exitCode_failureOf_ne_three (fault : Fault) : (failureOf fault).exitCode ≠ 3 := by
  cases fault <;> simp [failureOf, Failure.exitCode_eq_three_iff]

theorem run_ofOp (op : Op α) (w : World) :
    (ofOp op).run.run w = ((op.run.run w).1.mapError failureOf, (op.run.run w).2) := by
  change ofOp op w = _
  unfold ofOp
  rcases op.run.run w with ⟨(e | _) | a, v⟩ <;> rfl

theorem run_query (f : Disk → List Name → Except IoError α) (w : World) :
    (query f).run.run w = ((f w.disk w.cwd).mapError Failure.io, w) := by
  rw [query, run_bind]
  change StateT.run (ExceptT.run _) w = _
  cases f w.disk w.cwd <;> rfl

/-- A step before the work touches nothing and does not end with the failure of a task. -/
def Prepares (step : Step α) : Prop :=
  ∀ w, w.Untouched (step.run.run w).2 ∧ ∀ x, (step.run.run w).1 = .error x → x.exitCode ≠ 3

/-- A step of the work fails as work does. -/
def Works (step : Step α) : Prop :=
  ∀ w x, (step.run.run w).1 = .error x → x.IsOfWork

/-- A step does not end with the failure of a task, and after an early error nothing was done. -/
def Orderly (step : Step α) : Prop :=
  ∀ w x, (step.run.run w).1 = .error x →
    x.exitCode ≠ 3 ∧ (x.exitCode = 2 ∨ x.exitCode = 5 → w.Untouched (step.run.run w).2)

namespace Prepares

theorem pure (a : α) : (Pure.pure a : Step α).Prepares :=
  fun _ => ⟨⟨rfl, rfl, rfl⟩, fun _ h => by cases h⟩

theorem get : (MonadState.get : Step World).Prepares :=
  fun _ => ⟨⟨rfl, rfl, rfl⟩, fun _ h => by cases h⟩

theorem throw {x : Failure} (h : x.exitCode ≠ 3) : (MonadExcept.throw x : Step α).Prepares :=
  fun _ => ⟨⟨rfl, rfl, rfl⟩, fun _ hx => by cases hx; exact h⟩

theorem query (f : Disk → List Name → Except IoError α) : (Step.query f).Prepares := by
  intro w
  rw [run_query]
  refine ⟨⟨rfl, rfl, rfl⟩, fun x hx => ?_⟩
  obtain ⟨e, -, rfl⟩ := mapError_eq_error_iff.mp hx
  exact (Failure.isOfWork_io e).2.1

/-- An operation that only looks. -/
theorem ofOp {op : Op α} (h : op.Looks) : (Step.ofOp op).Prepares := by
  intro w
  obtain ⟨ws, hw⟩ := h w
  rw [run_ofOp, hw]
  refine ⟨⟨rfl, rfl, rfl⟩, fun x hx => ?_⟩
  obtain ⟨fault, -, rfl⟩ := mapError_eq_error_iff.mp hx
  exact exitCode_failureOf_ne_three fault

theorem bind {step : Step α} {f : α → Step β} (h : step.Prepares) (hf : ∀ a, (f a).Prepares) :
    (step >>= f).Prepares := by
  intro w
  obtain ⟨hleft, hfails⟩ := h w
  rw [run_bind]
  rcases hrun : step.run.run w with ⟨e | a, v⟩ <;> rw [hrun] at hleft hfails
  · exact ⟨hleft, fun x hx => hfails x (congrArg _ (Except.error.inj hx))⟩
  · exact ⟨hleft.trans (hf a v).1, (hf a v).2⟩

end Prepares

namespace Works

theorem pure (a : α) : (Pure.pure a : Step α).Works := fun _ _ h => by cases h

theorem print (text : String) : (Step.print text).Works := fun _ _ h => by cases h

theorem query (f : Disk → List Name → Except IoError α) : (Step.query f).Works := by
  intro w x hx
  rw [run_query] at hx
  obtain ⟨e, -, rfl⟩ := mapError_eq_error_iff.mp hx
  exact Failure.isOfWork_io e

/-- An operation without early errors. -/
theorem ofOp {op : Op α} (h : op.FailsLate) : (Step.ofOp op).Works := by
  intro w x hx
  rw [run_ofOp] at hx
  obtain ⟨e | _, hrun, rfl⟩ := mapError_eq_error_iff.mp hx
  · exact Failure.isOfWork_of_not_isEarly (h w e hrun)
  · exact Failure.isOfWork_panic

theorem bind {step : Step α} {f : α → Step β} (h : step.Works) (hf : ∀ a, (f a).Works) :
    (step >>= f).Works := by
  intro w x hx
  obtain ⟨hfirst, -⟩ | ⟨a, v, -, hnext, -⟩ := error_of_run_bind hx
  · exact h w x hfirst
  · exact hf a v x hnext

theorem forM {xs : List α} {f : α → Step PUnit} (hf : ∀ x, (f x).Works) : (xs.forM f).Works := by
  induction xs with
  | nil => exact pure _
  | cons x xs ih => exact bind (hf x) fun _ => ih

end Works

namespace Orderly

theorem of_isOfWork {x : Failure} {p : Prop} (h : x.IsOfWork) :
    x.exitCode ≠ 3 ∧ (x.exitCode = 2 ∨ x.exitCode = 5 → p) :=
  ⟨h.2.1, fun hearly => (hearly.elim h.1 h.2.2).elim⟩

/-- A timely operation. -/
theorem ofOp {op : Op α} (h : op.Timely) : (Step.ofOp op).Orderly := by
  intro w x hx
  rw [run_ofOp] at hx ⊢
  obtain ⟨e | _, hrun, rfl⟩ := mapError_eq_error_iff.mp hx
  · exact ⟨exitCode_failureOf_ne_three _, fun hearly =>
      h w e hrun (Failure.isEarly_of_exitCode hearly)⟩
  · exact of_isOfWork Failure.isOfWork_panic

/-- A step before the work, and then an orderly one. -/
theorem after {step : Step α} {f : α → Step β} (h : step.Prepares) (hf : ∀ a, (f a).Orderly) :
    (step >>= f).Orderly := by
  intro w x hx
  obtain ⟨hleft, hfails⟩ := h w
  obtain ⟨hfirst, hend⟩ | ⟨a, v, hrun, hnext, hend⟩ := error_of_run_bind hx
  · rw [hend]
    exact ⟨hfails x hfirst, fun _ => hleft⟩
  · rw [hrun] at hleft
    rw [hend]
    exact ⟨(hf a v x hnext).1, fun hearly => hleft.trans ((hf a v x hnext).2 hearly)⟩

/-- An orderly step, and then a step of the work. -/
theorem bind {step : Step α} {f : α → Step β} (h : step.Orderly) (hf : ∀ a, (f a).Works) :
    (step >>= f).Orderly := by
  intro w x hx
  obtain ⟨hfirst, hend⟩ | ⟨a, v, -, hnext, -⟩ := error_of_run_bind hx
  · rw [hend]
    exact h w x hfirst
  · exact of_isOfWork (hf a v x hnext)

end Orderly

end

end Step

/-! ### Commands -/

/-- What each command does first: it goes to its directory and loads its configuration. -/
def opening (settings : Settings) : Step Suite := do
  enter settings
  suite settings

section

variable (runner : Runner) (surroundings : Surroundings) (settings : Settings)

end

/-! ### The gate command -/

section

variable {runner : Runner} {surroundings : Surroundings} {settings : Settings} {w : World}

variable {s : Suite} {tags : Option String}

end

/-! ### The program -/

section

variable {runner : Runner} {surroundings : Surroundings} {settings : Settings} {command : Command}
  {w : World}

end

end SuiteGate.Cli
