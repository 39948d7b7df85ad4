import SuiteGate.Proofs.Environment.Scopes
import SuiteGate.Proofs.Gate.Environments
/-!
# Failed tasks

A gate run ends with the failure of a task exactly if it got to a task whose action ended with an
error (`FailsWith`), whatever the error is (`fst_runTasks_eq_error_iff`).  In the suite's gate the
tasks start under the overrides for the programs that are found (`SuiteTaskFails`), and the failure
is the result of the gate (`SuiteTaskFails.runSuiteGate`) unless going back to the earlier
environment is refused (`runSuiteGate_of_not_isValid`).
-/

namespace SuiteGate.Gate

/-! ### One run -/

section

variable {σ : Type} {report : Reporter σ} {now : σ → Instant} {selection : Selection}

variable (report now selection) in
/-- A run gets past tasks none of which fails to one that is picked, and the action of that task
ends with an error. -/
def FailsWith (tasks : List (Task σ)) (s : σ) (task : Task σ) (e : Error) : Prop :=
  ∃ earlier later lines t, tasks = earlier ++ task :: later ∧ selection.Picks task ∧
    runTasks report now selection earlier s = (.ok lines, t) ∧
    (task.action.run.run (report (.began task.name) t)).1 = .error (.error e)

/-- A single task fails with the error of its action. -/
theorem fst_runTask_eq_error_iff {task : Task σ} {s : σ} {name : String} {e : Error} :
    (runTask report now selection task s).1 = .error (.task name e) ↔
      selection.Picks task ∧ task.name = name ∧
        (task.action.run.run (report (.began task.name) s)).1 = .error (.error e) := by
  rw [runTask]
  by_cases hp : selection.Picks task
  · rw [if_pos ((selection.selects_iff task).mpr hp)]
    rcases hrun : task.action.run.run (report (.began task.name) s) with ⟨(x | _) | _, t⟩ <;>
      simp [hp, hrun]
  · rw [if_neg (mt (selection.selects_iff task).mp hp)]
    simp [hp]

/-- Behind a task that does not fail, a run fails as that of the other tasks does. -/
theorem failsWith_cons_of_ok {head : Task σ} {tasks : List (Task σ)} {s t : σ} {line : TaskReport}
    (hhead : runTask report now selection head s = (.ok line, t)) {task : Task σ} {e : Error} :
    FailsWith report now selection (head :: tasks) s task e ↔
      FailsWith report now selection tasks t task e := by
  constructor
  · rintro ⟨_ | ⟨first, earlier⟩, later, lines, u, hsplit, hp, hrun, hfails⟩
    · -- the task would be the head, which does not fail
      obtain ⟨rfl, rfl⟩ := List.cons.inj hsplit
      obtain ⟨-, rfl⟩ := Prod.mk.inj hrun
      have hfailed : (runTask report now selection head s).1 = .error (.task head.name e) :=
        fst_runTask_eq_error_iff.mpr ⟨hp, rfl, hfails⟩
      rw [hhead] at hfailed
      cases hfailed
    · obtain ⟨rfl, rfl⟩ := List.cons.inj hsplit
      rw [runTasks_cons_of_ok hhead] at hrun
      rcases hrest : runTasks report now selection earlier t with ⟨f | lines', v⟩
      · rw [hrest] at hrun
        cases hrun
      · rw [hrest] at hrun
        obtain ⟨-, rfl⟩ := Prod.mk.inj hrun
        exact ⟨earlier, later, lines', v, rfl, hp, hrest, hfails⟩
  · rintro ⟨earlier, later, lines, u, rfl, hp, hrun, hfails⟩
    refine ⟨head :: earlier, later, line :: lines, u, rfl, hp, ?_, hfails⟩
    rw [runTasks_cons_of_ok hhead, hrun]
    rfl

/-- A run whose first task does not succeed gets to that task only. -/
theorem failsWith_cons_of_error {head : Task σ} {tasks : List (Task σ)} {s t : σ} {f : Failure}
    (hhead : runTask report now selection head s = (.error f, t)) {task : Task σ} {e : Error} :
    FailsWith report now selection (head :: tasks) s task e ↔
      task = head ∧ f = .task task.name e := by
  constructor
  · rintro ⟨_ | ⟨first, earlier⟩, later, lines, u, hsplit, hp, hrun, hfails⟩
    · obtain ⟨rfl, rfl⟩ := List.cons.inj hsplit
      obtain ⟨-, rfl⟩ := Prod.mk.inj hrun
      have hfailed : (runTask report now selection head s).1 = .error (.task head.name e) :=
        fst_runTask_eq_error_iff.mpr ⟨hp, rfl, hfails⟩
      rw [hhead] at hfailed
      exact ⟨rfl, Except.error.inj hfailed⟩
    · obtain ⟨rfl, -⟩ := List.cons.inj hsplit
      rw [runTasks_cons_of_error hhead] at hrun
      cases hrun
  · rintro ⟨rfl, rfl⟩
    obtain ⟨hp, -, hfails⟩ := fst_runTask_eq_error_iff.mp (congrArg Prod.fst hhead)
    exact ⟨[], tasks, [], s, rfl, hp, rfl, hfails⟩

/-- **A run ends with the failure of a task exactly if the action of a task ends with an error.** -/
theorem fst_runTasks_eq_error_iff {tasks : List (Task σ)} {s : σ} {name : String} {e : Error} :
    (runTasks report now selection tasks s).1 = .error (.task name e) ↔
      ∃ task, task.name = name ∧ FailsWith report now selection tasks s task e := by
  induction tasks generalizing s with
  | nil => simp [runTasks, FailsWith]
  | cons head tasks ih =>
    rcases hhead : runTask report now selection head s with ⟨f | line, t⟩
    · simp only [runTasks_cons_of_error hhead, Except.error.injEq, failsWith_cons_of_error hhead]
      constructor
      · rintro rfl
        have hname := (fst_runTask_eq_error_iff.mp (congrArg Prod.fst hhead)).2.1
        exact ⟨head, hname, rfl, by rw [hname]⟩
      · rintro ⟨task, rfl, rfl, rfl⟩
        rfl
    · simp only [runTasks_cons_of_ok hhead, failsWith_cons_of_ok hhead, ← ih]
      cases (runTasks report now selection tasks t).1 <;> simp [Except.map]

end

/-! ### The gate of the suite -/

section

variable (runner : Runner) (s : Suite)

/-- The suite's gate gets to a task whose action ends with an error.  The tasks start under the
overrides for the programs that are found, if the system accepts these. -/
def SuiteTaskFails (selection : Option Selection) (report : Reporter World) (w : World)
    (task : Task World) (e : Error) : Prop :=
  let picked := selection.getD (.defaults s.config.suite.sandboxed)
  let found := Developer.missingOverrides w.disk w.cwd w.environment s.dir
  (∀ p ∈ found.toList, Environment.accepts p.1 p.2 = true) ∧
    FailsWith report (fun w => w.disk.clock) picked (suiteTasks runner s)
      { warnedOf picked w with environment := found.update w.environment } task e

variable {runner s} {selection : Option Selection} {report : Reporter World} {w : World}

theorem fst_suiteRun_eq_iff {picked : Selection} {name : String} {e : Error} :
    ((suiteRun runner s picked report).run.run w).1 = .ok (.error (.task name e)) ↔
      ∃ task, task.name = name ∧
        FailsWith report (fun w => w.disk.clock) picked (suiteTasks runner s) w task e := by
  rw [← fst_runTasks_eq_error_iff]
  change (suiteRun runner s picked report w).1 = _ ↔ _
  rw [suiteRun, run]
  rcases runTasks report (fun w => w.disk.clock) picked (suiteTasks runner s) w with
    ⟨f | lines, t⟩ <;> simp

/-- The suite's gate leaves the environment in which its tasks start, if a task fails. -/
theorem environment_suiteRun (hreport : report.IsPassive) {picked : Selection} {f : Failure}
    {v : World} (hf : f ≠ .panic)
    (h : ((suiteRun runner s picked report).run.run v).1 = .ok (.error f)) :
    ((suiteRun runner s picked report).run.run v).2.environment = v.environment := by
  obtain ⟨-, -, -, -, hleft⟩ := exists_executions (fun w => w.disk.clock) picked hreport
    (toolsIn_suiteTasks runner s) v
  change (suiteRun runner s picked report v).1 = _ at h
  change (suiteRun runner s picked report v).2.environment = _
  rw [suiteRun, run] at h ⊢
  rcases hrun : runTasks report (fun w => w.disk.clock) picked (suiteTasks runner s) v with
    ⟨f' | lines, t⟩
  · rw [hrun] at h hleft
    obtain rfl : f' = f := by simpa using h
    exact hleft fun hpanic => hf (Except.error.inj hpanic)
  · simp [hrun] at h

/-- **The failure of a task is what the suite's gate ends with,** in an environment that it can go
back to. -/
theorem SuiteTaskFails.runSuiteGate (hreport : report.IsPassive) (hw : w.environment.IsValid)
    {task : Task World} {e : Error} (h : SuiteTaskFails runner s selection report w task e) :
    ((Gate.runSuiteGate runner s selection report).run.run w).1 =
      .ok (.error (.task task.name e)) := by
  obtain ⟨haccepted, hfails⟩ := h
  have hresult := fst_suiteRun_eq_iff.mpr ⟨task, rfl, hfails⟩
  have hback := environment_suiteRun hreport (by simp) hresult
  have hstart : ∀ picked, (warnedOf picked w).environment.IsValid := fun _ => hw
  rw [run_runSuiteGate_eq]
  rcases hrun : (suiteRun runner s _ report).run.run _ with ⟨r, u⟩
  rw [hrun] at hresult hback
  have hvalid : u.environment.IsValid := by
    rw [hback]
    exact hw.updateList haccepted
  rw [Op.run_withEnv_of_accepted haccepted (hstart _) hrun hvalid]
  exact hresult

end

end SuiteGate.Gate
