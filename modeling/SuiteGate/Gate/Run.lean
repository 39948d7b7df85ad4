import SuiteGate.Gate.Event
import SuiteGate.Gate.Selection
import SuiteGate.World
/-!
# Gate runs

A gate is a list of named, tagged tasks, each with an action on some state (`Task`).  A run
(`run`) goes through the list in order: tasks that are not selected are skipped, the actions of
the others are executed until one fails.  What happens is reported as it happens, by a function
that may change the state, too.  A run without a failure ends with a summary that lists every task
once (`Summary`).
-/

namespace SuiteGate.Gate

/-- A named, tagged piece of work on a state. -/
structure Task (σ : Type) where
  name : String
  tags : List String
  action : ExceptT Fault (StateM σ) Unit

/-- What became of a task in a run without a failure. -/
inductive Outcome where
  | passed (millis : Nat)
  | skipped
deriving DecidableEq, Repr

/-- What became of a named, tagged task. -/
structure TaskReport where
  name : String
  tags : List String
  outcome : Outcome
deriving DecidableEq, Repr

/-- What became of all tasks, in order. -/
structure Summary where
  tasks : List TaskReport
  millis : Nat
deriving DecidableEq, Repr

namespace TaskReport

/-- Whether the task was executed. -/
def isPassed (r : TaskReport) : Bool :=
  match r.outcome with
  | .passed _ => true
  | .skipped => false

end TaskReport

namespace Summary

/-- The names of the tasks that were executed. -/
def passed (s : Summary) : List String :=
  (s.tasks.filter TaskReport.isPassed).map TaskReport.name

/-- The names of the tasks that were not selected. -/
def skipped (s : Summary) : List String :=
  (s.tasks.filter (!·.isPassed)).map TaskReport.name

end Summary

/-- Why a run ended early. -/
inductive Failure where
  /-- The action of a task failed. -/
  | task (name : String) (cause : Error)
  | panic
deriving DecidableEq, Repr

namespace Failure

/-- The text of a failed task. -/
def taskMessage (name : String) (cause : Error) : String :=
  "Gate task '" ++ name ++ "' failed: " ++ cause.message

end Failure

/-- Receives the events of a run. -/
abbrev Reporter (σ : Type) := Event → σ → σ

namespace Reporter

/-- Hands each event to several reporters in turn. -/
def broadcast {σ : Type} (reporters : List (Reporter σ)) : Reporter σ := fun e s =>
  reporters.foldl (fun s r => r e s) s

end Reporter

section

variable {σ : Type} (report : Reporter σ) (now : σ → Instant) (selection : Selection)

/-- Runs one task, or skips it. -/
def runTask (task : Task σ) (s : σ) : Except Failure TaskReport × σ :=
  if selection.selects task.tags then
    let s := report (.began task.name) s
    let start := now s
    match task.action.run.run s with
    | (.ok (), s) =>
      let duration := Duration.between start (now s)
      (.ok ⟨task.name, task.tags, .passed duration.millis⟩,
        report (.passed task.name duration) s)
    | (.error (.error e), s) =>
      (.error (.task task.name e),
        report (.failed task.name (Duration.between start (now s)) e.message) s)
    | (.error .panic, s) => (.error .panic, s)
  else (.ok ⟨task.name, task.tags, .skipped⟩, report (.skipped task.name) s)

/-- Runs tasks in order, up to the first that fails. -/
def runTasks : List (Task σ) → σ → Except Failure (List TaskReport) × σ
  | [], s => (.ok [], s)
  | task :: tasks, s =>
    match runTask report now selection task s with
    | (.error f, s) => (.error f, s)
    | (.ok r, s) =>
      match runTasks tasks s with
      | (.error f, s) => (.error f, s)
      | (.ok rs, s) => (.ok (r :: rs), s)

section

variable {report now selection}
variable {head : Task σ} {s t : σ}

/-- A run ends with its first task if that does not succeed. -/
theorem runTasks_cons_of_error {f : Failure}
    (h : runTask report now selection head s = (.error f, t)) (tasks : List (Task σ)) :
    runTasks report now selection (head :: tasks) s = (.error f, t) := by
  rw [runTasks, h]

/-- A run goes on with the other tasks if the first one succeeds. -/
theorem runTasks_cons_of_ok {line : TaskReport}
    (h : runTask report now selection head s = (.ok line, t)) (tasks : List (Task σ)) :
    runTasks report now selection (head :: tasks) s =
      ((runTasks report now selection tasks t).1.map (line :: ·),
        (runTasks report now selection tasks t).2) := by
  rw [runTasks, h]
  rcases hrest : runTasks report now selection tasks t with ⟨_ | _, _⟩ <;>
    simp only [hrest, Except.map]

end

/-- Runs a gate. -/
def run (tasks : List (Task σ)) (s : σ) : Except Failure Summary × σ :=
  match runTasks report now selection tasks s with
  | (.error f, t) => (.error f, t)
  | (.ok rs, t) =>
    let duration := Duration.between (now s) (now t)
    let summary : Summary := ⟨rs, duration.millis⟩
    (.ok summary,
      report (.finished summary.passed.length summary.skipped.length duration) t)

end

end SuiteGate.Gate
