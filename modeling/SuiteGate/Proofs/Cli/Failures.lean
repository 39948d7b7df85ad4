import SuiteGate.Cli.Commands
import SuiteGate.Proofs.Operations
/-!
# Errors of the work

Errors about the request, the configuration and the staleness check are early ones
(`Error.IsEarly`): they are meant to be found before anything is done.  The work of the commands
itself never ends with one (`Op.FailsLate`), whatever the programs do that it runs.  That is said of
each operation from the operations that it is made of; the rules for combining them come first.

Two operations can end with an early error.  Loading the configuration only looks at the world
(`Op.Looks`), and so does the staleness check.  So `nativeBuild` is timely (`Op.Timely`): if it
ends with an early error, no file was changed and no program was run.
-/

namespace SuiteGate

/-- An error about the request, the configuration or the staleness check. -/
def Error.IsEarly : Error → Prop
  | config _ => True
  | usage _ => True
  | staleness _ => True
  | _ => False

/-- Between two worlds no file was changed, no program was run, and the environment stayed. -/
structure World.Untouched (w v : World) : Prop where
  disk : v.disk = w.disk
  calls : v.calls = w.calls
  environment : v.environment = w.environment

theorem World.Untouched.trans {w v u : World} (h : w.Untouched v) (h' : v.Untouched u) :
    w.Untouched u :=
  ⟨h'.disk.trans h.disk, h'.calls.trans h.calls, h'.environment.trans h.environment⟩

namespace Op

section

variable {α β : Type}

/-- No error of an operation is an early one. -/
def FailsLate (op : Op α) : Prop :=
  ∀ w e, (op.run.run w).1 = .error (.error e) → ¬ e.IsEarly

/-- An operation changes nothing but the log. -/
def Looks (op : Op α) : Prop :=
  ∀ w, ∃ ws, (op.run.run w).2 = { w with warnings := ws }

/-- If an operation ends with an early error, nothing was done. -/
def Timely (op : Op α) : Prop :=
  ∀ w e, (op.run.run w).1 = .error (.error e) → e.IsEarly → w.Untouched (op.run.run w).2

/-- A series ends with a fault if its first operation does, or the next one does behind it. -/
theorem error_of_run_bind {op : Op α} {f : α → Op β} {w : World} {x : Fault}
    (h : ((op >>= f).run.run w).1 = .error x) :
    ((op.run.run w).1 = .error x ∧ ((op >>= f).run.run w).2 = (op.run.run w).2) ∨
      ∃ a v, op.run.run w = (.ok a, v) ∧ ((f a).run.run v).1 = .error x ∧
        ((op >>= f).run.run w).2 = ((f a).run.run v).2 := by
  rw [run_bind] at h ⊢
  rcases hrun : op.run.run w with ⟨e | a, v⟩
  · rw [hrun] at h
    exact .inl ⟨congrArg _ (Except.error.inj h), rfl⟩
  · rw [hrun] at h
    exact .inr ⟨a, v, rfl, h, rfl⟩

/-! ### Operations that only look -/

namespace Looks

theorem pure (a : α) : (Pure.pure a : Op α).Looks := fun w => ⟨w.warnings, rfl⟩

theorem fail (e : Error) : (Op.fail e : Op α).Looks := fun w => ⟨w.warnings, rfl⟩

theorem warn (text : String) : (Op.warn text).Looks := fun _ => ⟨_, rfl⟩

theorem ask (f : Disk → List Name → α) : (Op.ask f).Looks := fun w => ⟨w.warnings, rfl⟩

theorem ofExcept {ε : Type} (wrap : ε → Error) (r : Except ε α) : (Op.ofExcept wrap r).Looks :=
  fun w => ⟨w.warnings, by rw [run_ofExcept]⟩

theorem bind {op : Op α} {f : α → Op β} (h : op.Looks) (hf : ∀ a, (f a).Looks) :
    (op >>= f).Looks := by
  intro w
  obtain ⟨ws, hw⟩ := h w
  rw [run_bind]
  rcases hop : op.run.run w with ⟨e | a, v⟩
  · rw [hop] at hw
    exact ⟨ws, hw⟩
  · rw [hop] at hw
    obtain rfl : v = { w with warnings := ws } := hw
    exact hf a _

theorem query (f : Disk → List Name → Except IoError α) : (Op.query f).Looks :=
  bind (ask f) fun _ => ofExcept _ _

theorem readText (p : Path) : (Op.readText p).Looks := by
  refine bind (query _) fun bytes => ?_
  split
  · exact pure _
  · exact fail _

theorem attempt {op : Op α} (h : op.Looks) : op.attempt.Looks := by
  intro w
  have hop := h w
  rw [run_attempt]
  rcases hrun : op.run.run w with ⟨(e | _) | a, v⟩ <;> (rw [hrun] at hop; exact hop)

end Looks

/-! ### Operations without early errors -/

namespace FailsLate

theorem pure (a : α) : (Pure.pure a : Op α).FailsLate := fun _ _ h => by cases h

theorem fail {e : Error} (h : ¬ e.IsEarly) : (Op.fail e : Op α).FailsLate := by
  intro w e' he
  cases he
  exact h

theorem panic : (throw .panic : Op α).FailsLate := fun _ _ h => by cases h

theorem get : (MonadState.get : Op World).FailsLate := fun _ _ h => by cases h

theorem set (w : World) : (MonadState.set w : Op PUnit).FailsLate := fun _ _ h => by cases h

theorem modify (f : World → World) : (modify f : Op PUnit).FailsLate := fun _ _ h => by cases h

theorem warn (text : String) : (Op.warn text).FailsLate := modify _

theorem ask (f : Disk → List Name → α) : (Op.ask f).FailsLate := fun _ _ h => by cases h

theorem getVariable (key : String) : (Op.getVariable key).FailsLate := fun _ _ h => by cases h

theorem ofExcept {ε : Type} {wrap : ε → Error} {r : Except ε α}
    (h : ∀ x, r = .error x → ¬ (wrap x).IsEarly) : (Op.ofExcept wrap r).FailsLate := by
  intro w e he
  rw [run_ofExcept] at he
  cases r with
  | ok a => cases he
  | error x =>
    cases he
    exact h x rfl

/-- What the system refuses is no early error. -/
theorem ofIo (r : Except IoError α) : (Op.ofExcept .io r).FailsLate :=
  ofExcept fun _ _ h => h

/-- **One operation after another.** -/
theorem bind {op : Op α} {f : α → Op β} (h : op.FailsLate) (hf : ∀ a, (f a).FailsLate) :
    (op >>= f).FailsLate := by
  intro w e he
  obtain ⟨hfirst, -⟩ | ⟨a, v, -, hnext, -⟩ := error_of_run_bind he
  · exact h w e hfirst
  · exact hf a v e hnext

theorem discard {op : Op α} (h : op.FailsLate) : (discard op : Op PUnit).FailsLate :=
  bind h fun _ => pure _

theorem forM {xs : List α} {f : α → Op PUnit} (hf : ∀ x, (f x).FailsLate) :
    (xs.forM f).FailsLate := by
  induction xs with
  | nil => exact pure _
  | cons x xs ih => exact bind (hf x) fun _ => ih

theorem foldlM {xs : List α} {f : β → α → Op β} (hf : ∀ b x, (f b x).FailsLate) (b : β) :
    (xs.foldlM f b).FailsLate := by
  induction xs generalizing b with
  | nil => exact pure _
  | cons x xs ih =>
    rw [List.foldlM_cons]
    exact bind (hf b x) fun b' => ih b'

theorem thenAlways {op : Op α} (h : op.FailsLate) (after : Op Unit) :
    (op.thenAlways after).FailsLate :=
  h

/-- What overrides add is a panic if one of them is refused, or going back is. -/
theorem withEnv (o : Overrides) {op : Op α} (h : op.FailsLate) : (Op.withEnv o op).FailsLate := by
  intro w e he
  have hinner : ∀ (accepted : Bool) (v : World),
      (if accepted then op.run.run v else (.error .panic, v)).1 = .error (.error e) →
        ¬ e.IsEarly := by
    intro accepted v hv
    split at hv
    · exact h v e hv
    · cases hv
  change (Op.withEnv o op w).1 = _ at he
  unfold Op.withEnv at he
  simp only at he
  split at he
  next r v hrun =>
    split at he
    · exact hinner _ _ (by rw [hrun]; exact he)
    · cases he

theorem query (f : Disk → List Name → Except IoError α) : (Op.query f).FailsLate :=
  bind (ask f) fun _ => ofIo _

theorem change (f : Disk → List Name → Except IoError Disk) : (Op.change f).FailsLate :=
  bind (query f) fun _ => modify _

theorem changePartly (f : Disk → List Name → Except IoError Unit × Disk) :
    (Op.changePartly f).FailsLate :=
  bind (ask f) fun _ => bind (modify _) fun _ => ofIo _

/-! ### Files -/

theorem readText (p : Path) : (Op.readText p).FailsLate := by
  refine bind (query _) fun bytes => ?_
  split
  · exact pure _
  · exact fail fun h => h

theorem writeText (p : Path) (text : String) : (Op.writeText p text).FailsLate := change _

theorem makeDirs (p : Path) : (Op.makeDirs p).FailsLate := changePartly _

theorem makeParents (p : Path) : (Op.makeParents p).FailsLate := by
  unfold Op.makeParents
  split
  · exact makeDirs _
  · exact pure _

theorem copyAllInto (files : List Path) (dir : Path) : (Op.copyAllInto files dir).FailsLate :=
  forM fun _ => changePartly _

theorem copyTree (source target : Path) : (Op.copyTree source target).FailsLate :=
  bind (ask _) fun _ => bind (modify _) fun _ => ofIo _

theorem removeTree (p : Path) : (Op.removeTree p).FailsLate := changePartly _

theorem freshPath (stem ending : String) : (Op.freshPath stem ending).FailsLate := by
  refine bind get fun w => ?_
  simp only
  split
  · exact pure _
  · exact fail fun h => h

theorem withTempFile {stem ending contents : String} {body : Path → Op α}
    (h : ∀ p, (body p).FailsLate) : (Op.withTempFile stem ending contents body).FailsLate :=
  bind (freshPath stem ending) fun p => bind (writeText p contents) fun _ => thenAlways (h p) _

/-! ### Programs and the user -/

theorem run (runner : Runner) (i : Invocation) : (runner.run i).FailsLate := by
  intro w e he
  change (runner.run i w).1 = _ at he
  unfold Runner.run at he
  cases hreply : (runner i w).outcome with
  | ok output => simp [hreply] at he
  | error cause =>
    simp only [hreply] at he
    cases he
    exact fun h => h

theorem runChecked (runner : Runner) (i : Invocation) : (runner.runChecked i).FailsLate := by
  refine bind (run runner i) fun output => ?_
  split
  · exact pure _
  · exact fail fun h => h

theorem wait (t : Cli.Terminal) (message : String) : (t.prompt.wait message).FailsLate := by
  refine bind get fun w => bind (set _) fun _ => ofExcept fun e he => ?_
  change (t.pause message w).mapError Error.other = _ at he
  cases hpause : t.pause message w <;> rw [hpause] at he <;> cases he
  exact fun h => h

theorem askUser (t : Cli.Terminal) (question : String) : (t.prompt.ask question).FailsLate := by
  refine bind get fun w => bind (set _) fun _ => ofExcept fun e he => ?_
  change (t.confirm question w).mapError Error.other = _ at he
  cases hconfirm : t.confirm question w <;> rw [hconfirm] at he <;> cases he
  exact fun h => h

end FailsLate

/-! ### Timely operations -/

/-- What follows a timely operation may not end with an early error. -/
theorem Timely.bind {op : Op α} {f : α → Op β} (h : op.Timely) (hf : ∀ a, (f a).FailsLate) :
    (op >>= f).Timely := by
  intro w e he hearly
  obtain ⟨hfirst, hend⟩ | ⟨a, v, -, hnext, -⟩ := error_of_run_bind he
  · rw [hend]
    exact h w e hfirst hearly
  · exact absurd hearly (hf a v e hnext)

end

end Op

end SuiteGate
