import SuiteGate.Proofs.Operations
/-!
# Scoped environments

An `Action` works on the environment of the process.  It reads, sets and removes variables, runs
further actions under overrides of their own, and in the end it has a result, an error or a panic.
How a part of it ends does not end the action: it is handed on, so that an action may pass an error
on, or may catch even a panic.

The headline is `run_withEnv`: an action that is run under overrides starts in the updated
environment and ends as it would there, and the world is as before; if an override is refused, the
action is not run, and what was applied of the overrides is taken back.  Going back is a series of
changes that the system may refuse, too.  It accepts them all since every environment on the way is
valid (`Action.exists_environment`), which is an induction on the action.
-/

namespace SuiteGate

/-! ### Actions -/

namespace Op

/-- Runs an operation and gives how it ends as a result. -/
def caught {α : Type} (op : Op α) : Op (Except Fault α) := fun w =>
  match op.run.run w with
  | (r, w) => (.ok r, w)

end Op

/-- What is done with the environment, step by step. -/
inductive Action (α : Type) where
  /-- It ends with a result, with an error or in a panic. -/
  | ends (outcome : Except Fault α)
  /-- It reads a variable and goes on in view of the value. -/
  | reads (key : String) (next : Option String → Action α)
  /-- It sets or removes a variable and goes on in view of how that ended. -/
  | changes (key : String) (c : Change) (next : Except Fault Unit → Action α)
  /-- It runs an action under overrides and goes on in view of how that one ended. -/
  | under (o : Overrides) (body : Action α) (next : Except Fault α → Action α)

namespace Action

variable {α : Type}

/-- An action as an operation. -/
def toOp : Action α → Op α
  | ends outcome => fun w => (outcome, w)
  | reads key next => do (next (← Op.getVariable key)).toOp
  | changes key c next => do (next (← (Op.changeVariable key c).caught)).toOp
  | under o body next => do (next (← (Op.withEnv o body.toOp).caught)).toOp

end Action

/-! ### Refused changes -/

namespace Environment

/-- A change that the system refuses: the name is empty or holds `=`, or there is a NUL in the name
or the value. -/
def Refuses (key : String) (c : Change) : Prop :=
  key = "" ∨ '=' ∈ key.toList ∨ '\x00' ∈ key.toList ∨ ∃ v, c = .set v ∧ '\x00' ∈ v.toList

theorem validName_eq_false_iff {key : String} :
    validName key = false ↔ key = "" ∨ '=' ∈ key.toList ∨ '\x00' ∈ key.toList := by
  unfold validName
  rw [Bool.and_eq_false_iff, Bool.and_eq_false_iff]
  simp [or_assoc]

theorem accepts_eq_false_iff {key : String} {c : Change} :
    accepts key c = false ↔ Refuses key c := by
  unfold Refuses
  cases c with
  | set v =>
    have hvalue : validValue v = false ↔ '\x00' ∈ v.toList := by simp [validValue]
    have heq : (∃ u, Change.set v = .set u ∧ '\x00' ∈ u.toList) ↔ '\x00' ∈ v.toList := by simp
    rw [accepts, Bool.and_eq_false_iff, validName_eq_false_iff, hvalue, heq]
    simp only [or_assoc]
  | remove =>
    rw [accepts, validName_eq_false_iff]
    simp

theorem accepts_eq_true_iff {key : String} {c : Change} :
    accepts key c = true ↔ ¬ Refuses key c := by
  rw [← accepts_eq_false_iff, Bool.not_eq_false]

instance (key : String) (c : Change) : Decidable (Refuses key c) :=
  decidable_of_iff _ accepts_eq_false_iff

end Environment

/-- If an override is refused, those before the first such one are made and no others. -/
theorem Overrides.exists_apply_of_refuses {o : Overrides} (e : Environment)
    (h : ∃ p ∈ o.toList, Environment.Refuses p.1 p.2) :
    ∃ made p others, o.toList = made ++ p :: others ∧
      (∀ q ∈ made, ¬ Environment.Refuses q.1 q.2) ∧ Environment.Refuses p.1 p.2 ∧
        o.apply e = (false, updateList made e) := by
  obtain ⟨p, hp⟩ : ∃ p, o.toList.find? (fun p => !Environment.accepts p.1 p.2) = some p := by
    rw [← Option.isSome_iff_exists, List.find?_isSome]
    obtain ⟨p, hmem, hp⟩ := h
    exact ⟨p, hmem, by simp [Environment.accepts_eq_false_iff.2 hp]⟩
  obtain ⟨hrefused, made, others, hsplit, hmade⟩ := List.find?_eq_some_iff_append.1 hp
  have hp : Environment.accepts p.1 p.2 = false := by simpa using hrefused
  have hmade : ∀ q ∈ made, Environment.accepts q.1 q.2 = true := fun q hq => by
    simpa using hmade q hq
  refine ⟨made, p, others, hsplit, fun q hq => ?_, ?_, ?_⟩
  · exact Environment.accepts_eq_true_iff.1 (hmade q hq)
  · exact Environment.accepts_eq_false_iff.1 hp
  · rw [apply, hsplit]
    exact applyList_of_refused e hmade hp

/-! ### Running under overrides -/

namespace Op

variable {α : Type} {w : World}

theorem run_caught (op : Op α) (w : World) :
    op.caught.run.run w = (.ok (op.run.run w).1, (op.run.run w).2) := rfl

theorem run_getVariable (key : String) :
    (getVariable key).run.run w = (.ok w.environment[key]?, w) := rfl

/-- A change of a variable is made or it panics. -/
theorem run_changeVariable (key : String) (c : Change) :
    (changeVariable key c).run.run w =
      if Environment.accepts key c then
        (.ok (), { w with environment := w.environment.change key c })
      else (.error .panic, w) := by
  unfold changeVariable
  split <;> rfl

/-- **Under accepted overrides** an operation runs in the updated environment.  If it leaves a valid
environment, the earlier one comes back. -/
theorem run_withEnv_of_accepted {o : Overrides} {op : Op α}
    (ho : ∀ p ∈ o.toList, Environment.accepts p.1 p.2 = true) (hw : w.environment.IsValid)
    {r : Except Fault α} {v : World}
    (hrun : op.run.run { w with environment := o.update w.environment } = (r, v))
    (hv : v.environment.IsValid) :
    (withEnv o op).run.run w = (r, { v with environment := w.environment }) := by
  have happly := Overrides.apply_eq_update w.environment ho
  have hrestore := hw.restore hv
  change withEnv o op w = _
  unfold withEnv
  simp only [happly, if_true, hrun, hrestore]

/-- **Under refused overrides** an operation is not run. -/
theorem run_withEnv_of_refused {o : Overrides}
    (ho : ∃ p ∈ o.toList, Environment.Refuses p.1 p.2) (hw : w.environment.IsValid) (op : Op α) :
    (withEnv o op).run.run w = (.error .panic, w) := by
  obtain ⟨made, p, others, -, hmade, -, happly⟩ :=
    Overrides.exists_apply_of_refuses w.environment ho
  have hvalid : (Overrides.updateList made w.environment).IsValid :=
    hw.updateList fun q hq => Environment.accepts_eq_true_iff.2 (hmade q hq)
  have hrestore := hw.restore hvalid
  change withEnv o op w = _
  unfold withEnv
  simp only [happly, Bool.false_eq_true, if_false, hrestore, if_true]

end Op

namespace Action

variable {α : Type}

/-- **An action changes nothing but the environment,** and keeps that valid. -/
theorem exists_environment (a : Action α) {w : World} (hw : w.environment.IsValid) :
    ∃ r e, a.toOp.run.run w = (r, { w with environment := e }) ∧ e.IsValid := by
  -- the worlds vary: each part of the action starts where the one before it ended
  induction a generalizing w with
  | ends outcome => exact ⟨outcome, w.environment, rfl, hw⟩
  | reads key next ih =>
    obtain ⟨r, e, hrun, he⟩ := ih w.environment[key]? hw
    refine ⟨r, e, ?_, he⟩
    rw [toOp, Op.run_bind, Op.run_getVariable]
    exact hrun
  | changes key c next ih =>
    rw [toOp, Op.run_bind, Op.run_caught, Op.run_changeVariable]
    by_cases hc : Environment.accepts key c = true
    · rw [if_pos hc]
      have hchanged : (w.environment.change key c).IsValid := hw.change hc
      exact ih (.ok ()) (w := { w with environment := w.environment.change key c }) hchanged
    · rw [if_neg hc]
      exact ih (.error .panic) hw
  | under o body next ihbody ih =>
    rw [toOp, Op.run_bind, Op.run_caught]
    by_cases ho : ∃ p ∈ o.toList, Environment.Refuses p.1 p.2
    · rw [Op.run_withEnv_of_refused ho hw]
      exact ih (.error .panic) hw
    · have ho : ∀ p ∈ o.toList, Environment.accepts p.1 p.2 = true := fun p hp =>
        Environment.accepts_eq_true_iff.2 fun href => ho ⟨p, hp, href⟩
      have hupdated : (o.update w.environment).IsValid := hw.updateList ho
      obtain ⟨r, e, hrun, he⟩ :=
        ihbody (w := { w with environment := o.update w.environment }) hupdated
      rw [Op.run_withEnv_of_accepted ho hw hrun he]
      exact ih r hw

end Action

namespace Op

variable {α : Type}

/-- **What a scope does.**  If no override is refused, the action starts in the updated environment
and ends as it does there, and everything is as before.  If one is refused, the run panics, whatever
was to be run, and everything is as before, although the overrides in front of it were made. -/
theorem run_withEnv (o : Overrides) (a : Action α) {w : World} (hw : w.environment.IsValid) :
    ((∀ p ∈ o.toList, ¬ Environment.Refuses p.1 p.2) →
      (withEnv o a.toOp).run.run w =
        ((a.toOp.run.run { w with environment := o.update w.environment }).1, w)) ∧
    ((∃ p ∈ o.toList, Environment.Refuses p.1 p.2) →
      (∀ op : Op α, (withEnv o op).run.run w = (.error .panic, w)) ∧
      ∃ made p others, o.toList = made ++ p :: others ∧
        (∀ q ∈ made, ¬ Environment.Refuses q.1 q.2) ∧ Environment.Refuses p.1 p.2 ∧
          o.apply w.environment = (false, Overrides.updateList made w.environment)) := by
  constructor
  · intro ho
    have ho : ∀ p ∈ o.toList, Environment.accepts p.1 p.2 = true := fun p hp =>
      Environment.accepts_eq_true_iff.2 (ho p hp)
    have hupdated : (o.update w.environment).IsValid := hw.updateList ho
    obtain ⟨r, e, hrun, he⟩ :=
      a.exists_environment (w := { w with environment := o.update w.environment }) hupdated
    rw [run_withEnv_of_accepted ho hw hrun he, hrun]
  · intro ho
    exact ⟨run_withEnv_of_refused ho hw, Overrides.exists_apply_of_refuses w.environment ho⟩

/-- A panic in an inner scope, which the action around it turns into an error; and an override that
is refused when another one was made already. -/
theorem run_withEnv_nested :
    let w := World.start (Disk.empty ⟨0⟩) [] ⟨"/tmp"⟩ (.ofList [("A", "1"), ("B", "2")])
    let o := (Overrides.empty.set "A" "x").remove "B"
    let failing : Action Unit :=
      .changes "C" (.set "3") fun _ =>
        .under (Overrides.empty.set "B" "y") (.changes "=" .remove .ends) fun _ =>
          .ends (.error (.error (.other "failed")))
    let a : Action Unit := .reads "A" fun v => if v = some "x" then failing else .ends (.ok ())
    w.environment.IsValid ∧
      (withEnv o a.toOp).run.run w = (.error (.error (.other "failed")), w) ∧
      (withEnv (o.set "C=" "4") a.toOp).run.run w = (.error .panic, w) := by
  intro w o failing a
  have hw : w.environment.IsValid := by decide +kernel
  have hends : (a.toOp.run.run { w with environment := o.update w.environment }).1 =
      .error (.error (.other "failed")) := by decide +kernel
  refine ⟨hw, ?_, ?_⟩
  · rw [(run_withEnv o a hw).1 (by decide +kernel), hends]
  · exact ((run_withEnv (o.set "C=" "4") a hw).2 (by decide +kernel)).1 a.toOp

end Op

end SuiteGate
