import Mathlib.Data.List.Basic
import Mathlib.Tactic.Common
import SuiteGate.Gate.Run
/-!
# What a gate run does

A run is watched from outside: its state carries a record (`Observed`), to which a reporter adds
each event (`Reporter.recording`) and each action its own position in the list of tasks
(`Task.observed`).  What is to be seen is said of the tasks alone.  `stateAfter` is the state that
the selected tasks among the first ones leave, and `FirstFault` says which selected task is the
first whose action does not succeed in that state.

The headline is `run_observed`.  It gives the result, the final state and the whole record of a run
at once: with a first fault at a position, the record ends there and the run fails with that task's
error; without one, every task is in the record and in the summary.  What one task adds to the
record is `runTask_of_picks`.  The proof goes through the list of tasks (`runTasks_observed`), whose
run either completes (`Completes`) or stops at its first fault (`StopsAt`).
-/

namespace SuiteGate.Gate

/-! ### Selected tasks -/

/-- A selection picks a task if nothing is asked for, or one of the tags of the task is. -/
def Selection.Picks {σ : Type} (selection : Selection) (task : Task σ) : Prop :=
  selection.tags = ∅ ∨ ∃ tag ∈ task.tags, tag ∈ selection.tags

theorem Selection.selects_iff {σ : Type} (selection : Selection) (task : Task σ) :
    selection.selects task.tags = true ↔ selection.Picks task := by
  unfold Selection.selects Selection.isEmpty Selection.contains Selection.Picks
  rw [Bool.or_eq_true, List.any_eq_true, Std.ExtTreeSet.isEmpty_iff]
  simp only [Std.ExtTreeSet.contains_iff_mem]

instance {σ : Type} (selection : Selection) : DecidablePred (selection.Picks (σ := σ)) :=
  fun task => decidable_of_iff _ (selection.selects_iff task)

/-! ### Watching a run -/

/-- What is to be seen of a run: an event that is reported, or the action of the task at a position
that is executed. -/
inductive Observation where
  | event (e : Event)
  | action (position : ℕ)
deriving DecidableEq, Repr

/-- A state, and what was seen so far. -/
structure Observed (σ : Type) where
  state : σ
  record : List Observation

/-- The reporter that writes every event down. -/
def Reporter.recording {σ : Type} : Reporter (Observed σ) := fun e o =>
  { o with record := o.record ++ [.event e] }

/-- The task at a position, with an action that writes down that it is executed. -/
def Task.observed {σ : Type} (task : Task σ) (position : ℕ) : Task (Observed σ) where
  name := task.name
  tags := task.tags
  action := fun o =>
    match task.action.run.run o.state with
    | (result, state) => (result, ⟨state, o.record ++ [.action position]⟩)

/-- Tasks that are watched, the first of them at the given position. -/
def observedFrom {σ : Type} (first : ℕ) (tasks : List (Task σ)) : List (Task (Observed σ)) :=
  (tasks.zipIdx first).map fun p => p.1.observed p.2

section

variable {σ : Type} (selection : Selection)

/-! ### What is to be seen -/

/-- The state that the actions of the selected tasks leave, one after the other. -/
def stateAfter (tasks : List (Task σ)) (s : σ) : σ :=
  (tasks.filter (selection.Picks ·)).foldl (fun s task => (task.action.run.run s).2) s

/-- The task at a position is the first of the selected tasks whose action does not succeed in the
state that the selected tasks before it leave. -/
structure FirstFault (tasks : List (Task σ)) (s : σ) (position : ℕ) (task : Task σ)
    (fault : Fault) : Prop where
  at_position : tasks[position]? = some task
  picked : selection.Picks task
  fails : (task.action.run.run (stateAfter selection (tasks.take position) s)).1 = .error fault
  first : ∀ j < position, ∀ earlier, tasks[j]? = some earlier → selection.Picks earlier →
    (earlier.action.run.run (stateAfter selection (tasks.take j) s)).1 = .ok ()

/-- What is seen of a task that does not fail and takes the given time. -/
def observations (duration : Duration) (task : Task σ) (position : ℕ) : List Observation :=
  if selection.Picks task then
    [.event (.began task.name), .action position, .event (.passed task.name duration)]
  else [.event (.skipped task.name)]

/-- What is seen of tasks none of which fails, the first of them at the given position. -/
def observationsFrom (durations : ℕ → Duration) (first : ℕ) (tasks : List (Task σ)) :
    List Observation :=
  (tasks.zipIdx first).flatMap fun p => observations selection (durations p.2) p.1 p.2

/-- The line of the summary about a task. -/
def reportOf (duration : Duration) (task : Task σ) : TaskReport :=
  ⟨task.name, task.tags, if selection.Picks task then .passed duration.millis else .skipped⟩

/-- The lines of the summary about tasks, the first of them at the given position. -/
def reportsFrom (durations : ℕ → Duration) (first : ℕ) (tasks : List (Task σ)) :
    List TaskReport :=
  (tasks.zipIdx first).map fun p => reportOf selection (durations p.2) p.1

/-- What is seen last of a task whose action does not succeed. -/
def faultObservations (name : String) (duration : Duration) : Fault → List Observation
  | .error e => [.event (.failed name duration e.message)]
  | .panic => []

/-- How a run ends when the action of a task does not succeed. -/
def failureOf (name : String) : Fault → Failure
  | .error e => .task name e
  | .panic => .panic

/-! ### States and faults, task by task -/

theorem stateAfter_cons_of_picks {task : Task σ} (h : selection.Picks task) (tasks : List (Task σ))
    (s : σ) : stateAfter selection (task :: tasks) s
      = stateAfter selection tasks (task.action.run.run s).2 := by
  unfold stateAfter
  rw [List.filter_cons_of_pos (by simpa using h), List.foldl_cons]

theorem stateAfter_cons_of_not_picks {task : Task σ} (h : ¬ selection.Picks task)
    (tasks : List (Task σ)) (s : σ) :
    stateAfter selection (task :: tasks) s = stateAfter selection tasks s := by
  unfold stateAfter
  rw [List.filter_cons_of_neg (by simpa using h)]

/-- A task that is not picked, or succeeds, leaves the state from which the tasks behind it go
on. -/
def GoesOn (task : Task σ) (s t : σ) : Prop :=
  ∀ tasks, stateAfter selection (task :: tasks) s = stateAfter selection tasks t

/-- A fault at the head of the list. -/
theorem FirstFault.head {task : Task σ} {s : σ} {fault : Fault} (hp : selection.Picks task)
    (hf : (task.action.run.run s).1 = .error fault) (tasks : List (Task σ)) :
    FirstFault selection (task :: tasks) s 0 task fault where
  at_position := rfl
  picked := hp
  fails := hf
  first := fun j hj => absurd hj (Nat.not_lt_zero j)

variable {selection}

/-- A fault behind a task that does not fail. -/
theorem firstFault_succ_iff {head : Task σ} {tasks : List (Task σ)} {s t : σ} {position : ℕ}
    {task : Task σ} {fault : Fault} (hgo : GoesOn selection head s t)
    (hok : selection.Picks head → (head.action.run.run s).1 = .ok ()) :
    FirstFault selection (head :: tasks) s (position + 1) task fault ↔
      FirstFault selection tasks t position task fault := by
  constructor
  · rintro ⟨hat, hp, hf, hfirst⟩
    refine ⟨by simpa using hat, hp, ?_, fun j hj earlier he hpe => ?_⟩
    · rw [← hf, List.take_succ_cons, hgo]
    · have := hfirst (j + 1) (by omega) earlier (by simpa using he) hpe
      rwa [List.take_succ_cons, hgo] at this
  · rintro ⟨hat, hp, hf, hfirst⟩
    refine ⟨by simpa using hat, hp, ?_, fun j hj earlier he hpe => ?_⟩
    · rw [← hf, List.take_succ_cons, hgo]
    · cases j with
      | zero =>
        -- the earlier task is the head itself
        obtain rfl : head = earlier := by simpa using he
        exact hok hpe
      | succ j =>
        rw [List.take_succ_cons, hgo]
        exact hfirst j (by omega) earlier (by simpa using he) hpe

/-- There is no fault at a head that does not fail. -/
theorem not_firstFault_zero {head : Task σ} {tasks : List (Task σ)} {s : σ} {task : Task σ}
    {fault : Fault} (hok : selection.Picks head → (head.action.run.run s).1 = .ok ()) :
    ¬ FirstFault selection (head :: tasks) s 0 task fault := by
  rintro ⟨hat, hp, hf, -⟩
  obtain rfl : head = task := by simpa using hat
  have : (head.action.run.run s).1 = .error fault := hf
  rw [hok hp] at this
  cases this

/-! ### One task -/

variable (now : Observed σ → Instant)

theorem runTask_of_not_picks {task : Task σ} (h : ¬ selection.Picks task) (position : ℕ)
    (o : Observed σ) (duration : Duration) :
    runTask .recording now selection (task.observed position) o =
      (.ok (reportOf selection duration task),
        ⟨o.state, o.record ++ observations selection duration task position⟩) := by
  have hs : selection.selects (task.observed position).tags ≠ true :=
    fun hs => h ((selection.selects_iff task).mp hs)
  rw [runTask, if_neg hs, reportOf, if_neg h, observations, if_neg h]
  rfl

/-- **What one picked task adds to the record,** and how it ends. -/
theorem runTask_of_picks {task : Task σ} (h : selection.Picks task) (position : ℕ)
    (o : Observed σ) :
    ∃ duration,
      runTask .recording now selection (task.observed position) o =
        match task.action.run.run o.state with
        | (.ok (), t) => (.ok (reportOf selection duration task),
            ⟨t, o.record ++ observations selection duration task position⟩)
        | (.error fault, t) => (.error (failureOf task.name fault),
            ⟨t, o.record ++ [.event (.began task.name), .action position]
              ++ faultObservations task.name duration fault⟩) := by
  have hs : selection.selects (task.observed position).tags = true :=
    (selection.selects_iff task).mpr h
  have hshape : ∀ duration, reportOf selection duration task
      = ⟨task.name, task.tags, .passed duration.millis⟩ := fun duration => by
    rw [reportOf, if_pos h]
  have hact : (task.observed position).action.run.run (Reporter.recording (.began task.name) o)
      = ((task.action.run.run o.state).1, ⟨(task.action.run.run o.state).2,
          o.record ++ [.event (.began task.name)] ++ [.action position]⟩) := rfl
  have hname : (task.observed position).name = task.name := rfl
  have htags : (task.observed position).tags = task.tags := rfl
  -- the clock is read when the task has begun and when its action is over
  refine ⟨Duration.between (now (Reporter.recording (.began task.name) o))
    (now ⟨(task.action.run.run o.state).2,
      o.record ++ [.event (.began task.name)] ++ [.action position]⟩), ?_⟩
  simp only [hshape, observations, if_pos h]
  rw [runTask, if_pos hs]
  simp only [hname, htags, hact]
  rcases task.action.run.run o.state with ⟨fault | _, t⟩
  · cases fault with
    | error e =>
      simp only [failureOf, faultObservations, Reporter.recording, List.append_assoc,
        List.cons_append, List.nil_append]
    | panic => simp [failureOf, faultObservations]
  · simp only [Reporter.recording, List.append_assoc, List.cons_append, List.nil_append]

/-- A head that does not fail: the run goes on behind it. -/
theorem runTask_of_goesOn {head : Task σ} {o : Observed σ}
    (hok : selection.Picks head → (head.action.run.run o.state).1 = .ok ()) (position : ℕ) :
    ∃ duration t, GoesOn selection head o.state t ∧
      runTask .recording now selection (head.observed position) o =
        (.ok (reportOf selection duration head),
          ⟨t, o.record ++ observations selection duration head position⟩) := by
  by_cases hp : selection.Picks head
  · obtain ⟨duration, hrun⟩ := runTask_of_picks now hp position o
    refine ⟨duration, (head.action.run.run o.state).2,
      fun tasks => stateAfter_cons_of_picks selection hp tasks o.state, ?_⟩
    have heq : head.action.run.run o.state = (.ok (), (head.action.run.run o.state).2) :=
      Prod.ext (hok hp) rfl
    rw [hrun, heq]
  · exact ⟨default, o.state, fun tasks => stateAfter_cons_of_not_picks selection hp tasks o.state,
      runTask_of_not_picks now hp position o default⟩

/-! ### All tasks -/

theorem observationsFrom_cons (durations : ℕ → Duration) (first : ℕ) (head : Task σ)
    (tasks : List (Task σ)) :
    observationsFrom selection durations first (head :: tasks) =
      observations selection (durations first) head first
        ++ observationsFrom selection durations (first + 1) tasks := by
  unfold observationsFrom
  rw [List.zipIdx_cons, List.flatMap_cons]

theorem reportsFrom_cons (durations : ℕ → Duration) (first : ℕ) (head : Task σ)
    (tasks : List (Task σ)) :
    reportsFrom selection durations first (head :: tasks) =
      reportOf selection (durations first) head
        :: reportsFrom selection durations (first + 1) tasks := by
  unfold reportsFrom
  rw [List.zipIdx_cons, List.map_cons]

/-- The time that a task takes has no effect on what is seen of the tasks behind it. -/
theorem observationsFrom_update (durations : ℕ → Duration) {position first : ℕ}
    (h : position < first) (d : Duration) (tasks : List (Task σ)) :
    observationsFrom selection (Function.update durations position d) first tasks =
      observationsFrom selection durations first tasks := by
  unfold observationsFrom
  refine List.flatMap_congr fun p hp => ?_
  have := List.le_snd_of_mem_zipIdx hp
  rw [Function.update_of_ne (by omega)]

theorem reportsFrom_update (durations : ℕ → Duration) {position first : ℕ}
    (h : position < first) (d : Duration) (tasks : List (Task σ)) :
    reportsFrom selection (Function.update durations position d) first tasks =
      reportsFrom selection durations first tasks := by
  unfold reportsFrom
  refine List.map_congr_left fun p hp => ?_
  have := List.le_snd_of_mem_zipIdx hp
  rw [Function.update_of_ne (by omega)]

variable (selection) in
/-- The watched tasks all succeed: each of them is in the record and in the summary. -/
structure Completes (durations : ℕ → Duration) (first : ℕ) (tasks : List (Task σ))
    (o : Observed σ) : Prop where
  not_firstFault : ∀ position task fault,
    ¬ FirstFault selection tasks o.state position task fault
  runTasks_eq : runTasks .recording now selection (observedFrom first tasks) o =
    (.ok (reportsFrom selection durations first tasks),
      ⟨stateAfter selection tasks o.state,
        o.record ++ observationsFrom selection durations first tasks⟩)

variable (selection) in
/-- The watched tasks come to a first fault: the record ends there. -/
structure StopsAt (durations : ℕ → Duration) (first : ℕ) (tasks : List (Task σ)) (o : Observed σ)
    (position : ℕ) (task : Task σ) (fault : Fault) : Prop where
  firstFault : FirstFault selection tasks o.state position task fault
  runTasks_eq : runTasks .recording now selection (observedFrom first tasks) o =
    (.error (failureOf task.name fault),
      ⟨(task.action.run.run (stateAfter selection (tasks.take position) o.state)).2,
        o.record ++ observationsFrom selection durations first (tasks.take position)
          ++ [.event (.began task.name), .action (first + position)]
          ++ faultObservations task.name (durations (first + position)) fault⟩)

theorem observedFrom_cons (first : ℕ) (head : Task σ) (tasks : List (Task σ)) :
    observedFrom first (head :: tasks) =
      head.observed first :: observedFrom (first + 1) tasks := by
  unfold observedFrom
  rw [List.zipIdx_cons, List.map_cons]

section

variable {now} {durations : ℕ → Duration} {d : Duration} {first : ℕ} {head : Task σ}
  {tasks : List (Task σ)} {o : Observed σ} {t : σ}
  (hok : selection.Picks head → (head.action.run.run o.state).1 = .ok ())
  (hgo : GoesOn selection head o.state t)
  (hrun : runTask .recording now selection (head.observed first) o =
    (.ok (reportOf selection d head), ⟨t, o.record ++ observations selection d head first⟩))
include hok hgo hrun

/-- The record of tasks behind a head that does not fail continues that of the head. -/
theorem Completes.cons
    (h : Completes selection now durations (first + 1) tasks
      ⟨t, o.record ++ observations selection d head first⟩) :
    Completes selection now (Function.update durations first d) first (head :: tasks) o where
  not_firstFault
    | 0, _, _, hf => not_firstFault_zero hok hf
    | position + 1, task, fault, hf =>
      h.not_firstFault position task fault ((firstFault_succ_iff hgo hok).mp hf)
  runTasks_eq := by
    rw [observedFrom_cons, runTasks_cons_of_ok hrun, h.runTasks_eq]
    simp only [Except.map, reportsFrom_cons, observationsFrom_cons, Function.update_self,
      reportsFrom_update durations (Nat.lt_succ_self first),
      observationsFrom_update durations (Nat.lt_succ_self first), hgo tasks, List.append_assoc]

/-- A fault behind a head that does not fail also ends the run that starts with the head. -/
theorem StopsAt.cons {position : ℕ} {task : Task σ} {fault : Fault}
    (h : StopsAt selection now durations (first + 1) tasks
      ⟨t, o.record ++ observations selection d head first⟩ position task fault) :
    StopsAt selection now (Function.update durations first d) first (head :: tasks) o
      (position + 1) task fault where
  firstFault := (firstFault_succ_iff hgo hok).mpr h.firstFault
  runTasks_eq := by
    have hne : first + (position + 1) ≠ first := by omega
    have hpos : first + 1 + position = first + (position + 1) := by omega
    rw [observedFrom_cons, runTasks_cons_of_ok hrun, h.runTasks_eq]
    simp only [Except.map, List.take_succ_cons, observationsFrom_cons, Function.update_self,
      Function.update_of_ne hne, hpos, hgo (tasks.take position),
      observationsFrom_update durations (Nat.lt_succ_self first), List.append_assoc]

end

/-- A run stops at a head whose action does not succeed. -/
theorem exists_stopsAt_head {head : Task σ} {o : Observed σ} {fault : Fault}
    (hp : selection.Picks head) (hf : (head.action.run.run o.state).1 = .error fault)
    (first : ℕ) (tasks : List (Task σ)) :
    ∃ d, StopsAt selection now (fun _ => d) first (head :: tasks) o 0 head fault := by
  obtain ⟨d, hrun⟩ := runTask_of_picks now hp first o
  have hact : head.action.run.run o.state = (.error fault, (head.action.run.run o.state).2) :=
    Prod.ext hf rfl
  rw [hact] at hrun
  refine ⟨d, .head selection hp hf tasks, ?_⟩
  rw [observedFrom_cons, runTasks_cons_of_error hrun]
  simp [observationsFrom, stateAfter]

/-- The run of any tasks completes, or stops at their first fault. -/
theorem runTasks_observed (tasks : List (Task σ)) (first : ℕ) (o : Observed σ) :
    ∃ durations : ℕ → Duration, Completes selection now durations first tasks o ∨
      ∃ position task fault,
        StopsAt selection now durations first tasks o position task fault := by
  induction tasks generalizing first o with
  | nil =>
    refine ⟨fun _ => default, .inl ⟨fun position task fault h => ?_, ?_⟩⟩
    · simpa using h.at_position
    · simp [observedFrom, runTasks, reportsFrom, observationsFrom, stateAfter]
  | cons head tasks ih =>
    by_cases hok : selection.Picks head → (head.action.run.run o.state).1 = .ok ()
    · obtain ⟨d, t, hgo, hrun⟩ := runTask_of_goesOn now hok first
      obtain ⟨durations, h⟩ := ih (first + 1) ⟨t, o.record ++ observations selection d head first⟩
      refine ⟨Function.update durations first d, ?_⟩
      rcases h with h | ⟨position, task, fault, h⟩
      · exact .inl (h.cons hok hgo hrun)
      · exact .inr ⟨position + 1, task, fault, h.cons hok hgo hrun⟩
    · -- the head is the first fault
      obtain ⟨hp, hne⟩ := Classical.not_imp.mp hok
      rcases hact : (head.action.run.run o.state).1 with fault | _
      · obtain ⟨d, h⟩ := exists_stopsAt_head now hp hact first tasks
        exact ⟨_, .inr ⟨0, head, fault, h⟩⟩
      · exact absurd hact hne

/-! ### The summary and the whole run -/

theorem isPassed_reportOf (d : Duration) (task : Task σ) :
    (reportOf selection d task).isPassed = decide (selection.Picks task) := by
  unfold reportOf TaskReport.isPassed
  by_cases hp : selection.Picks task <;> simp [hp]

/-- The summary names as executed exactly the tasks that are picked, in their order. -/
theorem passed_reportsFrom (durations : ℕ → Duration) (first : ℕ) (tasks : List (Task σ))
    (millis : ℕ) :
    Summary.passed ⟨reportsFrom selection durations first tasks, millis⟩ =
      (tasks.filter (selection.Picks ·)).map Task.name := by
  unfold Summary.passed
  -- the list is taken from any position on, since the times depend on it
  induction tasks generalizing first with
  | nil => rfl
  | cons head tasks ih =>
    simp only [reportsFrom_cons, List.filter_cons, isPassed_reportOf]
    by_cases hp : selection.Picks head
    · simp only [hp, decide_true, if_true, List.map_cons, ih]
      rfl
    · simp only [hp, decide_false, Bool.false_eq_true, if_false, ih]

/-- The summary names as skipped exactly the tasks that are not picked, in their order. -/
theorem skipped_reportsFrom (durations : ℕ → Duration) (first : ℕ) (tasks : List (Task σ))
    (millis : ℕ) :
    Summary.skipped ⟨reportsFrom selection durations first tasks, millis⟩ =
      (tasks.filter (¬ selection.Picks ·)).map Task.name := by
  unfold Summary.skipped
  induction tasks generalizing first with
  | nil => rfl
  | cons head tasks ih =>
    simp only [reportsFrom_cons, List.filter_cons, isPassed_reportOf]
    by_cases hp : selection.Picks head
    · simp only [hp, decide_true, Bool.not_true, Bool.false_eq_true, if_false, not_true_eq_false,
        decide_false, ih]
    · simp only [hp, decide_false, Bool.not_false, if_true, not_false_eq_true, decide_true,
        List.map_cons, ih]
      rfl

/-- **What a gate run does.**  Without a fault, every picked action is executed once, in order, and
every task is in the record and in the summary.  With a first fault, the run ends with it: nothing
is executed or reported behind it, and the failure names the task and carries its error. -/
theorem run_observed (selection : Selection) (now : Observed σ → Instant) (tasks : List (Task σ))
    (s : σ) :
    ∃ (durations : ℕ → Duration) (whole : Duration),
      ((∀ position task fault, ¬ FirstFault selection tasks s position task fault) ∧
        run .recording now selection (observedFrom 0 tasks) ⟨s, []⟩ =
          (.ok ⟨reportsFrom selection durations 0 tasks, whole.millis⟩,
            ⟨stateAfter selection tasks s,
              observationsFrom selection durations 0 tasks
                ++ [.event (.finished (tasks.countP (selection.Picks ·))
                  (tasks.countP (¬ selection.Picks ·)) whole)]⟩)) ∨
      ∃ position task fault, FirstFault selection tasks s position task fault ∧
        run .recording now selection (observedFrom 0 tasks) ⟨s, []⟩ =
          (.error (failureOf task.name fault),
            ⟨(task.action.run.run (stateAfter selection (tasks.take position) s)).2,
              observationsFrom selection durations 0 (tasks.take position)
                ++ [.event (.began task.name), .action position]
                ++ faultObservations task.name (durations position) fault⟩) := by
  obtain ⟨durations, h⟩ := runTasks_observed now tasks 0 ⟨s, []⟩
  refine ⟨durations, Duration.between (now ⟨s, []⟩)
    (now (runTasks .recording now selection (observedFrom 0 tasks) ⟨s, []⟩).2), ?_⟩
  rcases h with ⟨hnone, h⟩ | ⟨position, task, fault, hfirst, h⟩
  · refine .inl ⟨hnone, ?_⟩
    rw [run, h]
    simp only [passed_reportsFrom, skipped_reportsFrom, List.length_map,
      ← List.countP_eq_length_filter, List.nil_append]
    rfl
  · refine .inr ⟨position, task, fault, hfirst, ?_⟩
    rw [run, h]
    simp only [List.nil_append, Nat.zero_add]

end

end SuiteGate.Gate
