import Mathlib.Data.List.Forall2
import Mathlib.Data.List.Infix
import Mathlib.Tactic.Common
import SuiteGate.Files
/-!
# Running operations

The laws by which operations are run step by step, and the runs of tools between two worlds.
`Op.Runs` says of an operation that only the tools it runs change the disk, and which tools those
are if it ends with a result.  The headline is `exists_call_of_runs`: what holds of the disk
afterwards and did not hold before came about in the run of a tool (`CameAbout`).
-/

namespace SuiteGate

namespace Op

section

variable {α β : Type} {w : World}

/-- **One operation after another.** -/
theorem run_bind (op : Op α) (f : α → Op β) (w : World) :
    (op >>= f).run.run w =
      match op.run.run w with
      | (.ok a, w') => (f a).run.run w'
      | (.error e, w') => (.error e, w') := by
  change (op.run >>= ExceptT.bindCont f).run w = _
  change (ExceptT.bindCont f (op.run.run w).1).run (op.run.run w).2 = _
  rcases op.run.run w with ⟨e | a, w'⟩ <;> rfl

/-- A series that ends with a result, taken apart. -/
theorem exists_of_run_bind {op : Op α} {f : α → Op β} {b : β} {w' : World}
    (h : (op >>= f).run.run w = (.ok b, w')) :
    ∃ a v, op.run.run w = (.ok a, v) ∧ (f a).run.run v = (.ok b, w') := by
  rw [run_bind] at h
  rcases hop : op.run.run w with ⟨e | a, v⟩
  · rw [hop] at h
    cases h
  · rw [hop] at h
    exact ⟨a, v, rfl, h⟩

theorem run_pure (a : α) : (pure a : Op α).run.run w = (.ok a, w) := rfl

theorem run_fail (e : Error) : (fail e : Op α).run.run w = (.error (.error e), w) := rfl

theorem run_modify (f : World → World) : (modify f : Op PUnit).run.run w = (.ok ⟨⟩, f w) := rfl

theorem run_ask (f : Disk → List Name → α) : (ask f).run.run w = (.ok (f w.disk w.cwd), w) := rfl

theorem run_ofExcept {ε : Type} (wrap : ε → Error) (r : Except ε α) :
    (ofExcept wrap r).run.run w = (r.mapError fun e => .error (wrap e), w) := by
  cases r <;> rfl

theorem run_query (f : Disk → List Name → Except IoError α) :
    (query f).run.run w = ((f w.disk w.cwd).mapError fun e => .error (.io e), w) := by
  rw [query, run_bind, run_ask]
  exact run_ofExcept _ _

theorem run_changePartly (f : Disk → List Name → Except IoError Unit × Disk) :
    (changePartly f).run.run w =
      ((f w.disk w.cwd).1.mapError fun e => .error (.io e),
        { w with disk := (f w.disk w.cwd).2 }) := by
  rw [changePartly, run_bind, run_ask]
  simp only [run_bind, run_modify, run_ofExcept]

theorem run_discard (op : Op α) (w : World) :
    (discard op).run.run w =
      match op.run.run w with
      | (.ok _, w') => (.ok ⟨⟩, w')
      | (.error e, w') => (.error e, w') := by
  change (op >>= fun _ => pure ⟨⟩ : Op PUnit).run.run w = _
  rw [run_bind]
  rfl

theorem run_attempt (op : Op α) :
    (attempt op).run.run w =
      match op.run.run w with
      | (.ok a, w') => (.ok (.ok a), w')
      | (.error (.error e), w') => (.ok (.error e), w')
      | (.error .panic, w') => (.error .panic, w') := rfl

/-- An operation that does not panic is attempted without a fault. -/
theorem run_attempt_of_run {op : Op α} {r : Except Error α} {w' : World}
    (h : op.run.run w = (r.mapError .error, w')) : (attempt op).run.run w = (.ok r, w') := by
  rw [run_attempt, h]
  cases r <;> rfl

theorem run_thenAlways (op : Op α) (after : Op Unit) :
    (thenAlways op after).run.run w =
      ((op.run.run w).1, (after.run.run (op.run.run w).2).2) := rfl

end

end Op

/-! ### One operation for each element of a list -/

namespace Op

section

variable {α : Type} {f : α → Op PUnit} {x : α} {xs : List α} {w : World}

theorem run_forM_nil : (([] : List α).forM f).run.run w = (.ok ⟨⟩, w) := rfl

theorem run_forM_cons :
    ((x :: xs).forM f).run.run w =
      match (f x).run.run w with
      | (.ok _, w') => (xs.forM f).run.run w'
      | (.error e, w') => (.error e, w') := by
  change (f x >>= fun _ => xs.forM f).run.run w = _
  rw [run_bind]
  rcases (f x).run.run w with ⟨e | _, w'⟩ <;> rfl

theorem exists_of_run_forM_cons {w' : World} (h : ((x :: xs).forM f).run.run w = (.ok ⟨⟩, w')) :
    ∃ v, (f x).run.run w = (.ok ⟨⟩, v) ∧ (xs.forM f).run.run v = (.ok ⟨⟩, w') := by
  change (f x >>= fun _ => xs.forM f).run.run w = _ at h
  obtain ⟨_, v, hx, hrest⟩ := exists_of_run_bind h
  exact ⟨v, hx, hrest⟩

/-- The elements whose operations end with a result before one does not. -/
def completed (f : α → Op PUnit) : List α → World → List α
  | [], _ => []
  | x :: xs, w =>
    match (f x).run.run w with
    | (.ok _, w') => x :: completed f xs w'
    | (.error _, _) => []

/-- Something holds of each operation that is begun, with the worlds before and after it. -/
def Throughout (P : α → World → World → Prop) (f : α → Op PUnit) : List α → World → Prop
  | [], _ => True
  | x :: xs, w =>
    P x w ((f x).run.run w).2 ∧
      (((f x).run.run w).1 = .ok ⟨⟩ → Throughout P f xs ((f x).run.run w).2)

theorem completed_prefix (f : α → Op PUnit) (xs : List α) (w : World) :
    completed f xs w <+: xs := by
  induction xs generalizing w with
  | nil => exact List.prefix_rfl
  | cons x xs ih =>
    rw [completed]
    rcases (f x).run.run w with ⟨e | _, w'⟩
    · exact List.nil_prefix
    · exact List.cons_prefix_cons.mpr ⟨rfl, ih w'⟩

/-- All operations are completed if there is a result. -/
theorem completed_of_ok (h : ((xs.forM f).run.run w).1 = .ok ⟨⟩) : completed f xs w = xs := by
  induction xs generalizing w with
  | nil => rfl
  | cons x xs ih =>
    rw [run_forM_cons] at h
    rw [completed]
    rcases hrun : (f x).run.run w with ⟨e | _, w'⟩
    · rw [hrun] at h
      cases h
    · rw [hrun] at h
      simp only [ih h]

theorem Throughout.of_forall {P : α → World → World → Prop} (h : ∀ x v v', P x v v') :
    Throughout P f xs w := by
  induction xs generalizing w with
  | nil => trivial
  | cons x xs ih => exact ⟨h x _ _, fun _ => ih⟩

/-- **What each operation keeps, the run keeps,** with the operations completed so far.  An
operation that ends with an error is not completed, but may have changed the world. -/
theorem Throughout.keeps {P : α → World → World → Prop} {I : List α → World → Prop}
    (h : Throughout P f xs w)
    (hok : ∀ done, ∀ x ∈ xs, ∀ v v', P x v v' → I done v → (f x).run.run v = (.ok ⟨⟩, v') →
      I (done ++ [x]) v')
    (herror : ∀ done, ∀ x ∈ xs, ∀ v v' e, P x v v' → I done v →
      (f x).run.run v = (.error e, v') → I done v')
    {done : List α} (hI : I done w) :
    I (done ++ completed f xs w) ((xs.forM f).run.run w).2 := by
  induction xs generalizing done w with
  | nil => rwa [completed, List.append_nil, run_forM_nil]
  | cons x xs ih =>
    obtain ⟨hP, hrest⟩ := h
    rw [run_forM_cons, completed]
    rcases hrun : (f x).run.run w with ⟨e | _, w'⟩
    · rw [hrun] at hP
      simpa using herror done x (List.mem_cons_self ..) w w' e hP hI hrun
    · rw [hrun] at hP hrest
      have hnext := ih (hrest rfl)
        (fun done y hy => hok done y (List.mem_cons_of_mem _ hy))
        (fun done y hy => herror done y (List.mem_cons_of_mem _ hy))
        (hok done x (List.mem_cons_self ..) w w' hP hI hrun)
      rwa [List.append_assoc, List.singleton_append] at hnext

end

end Op

/-! ### Reading and writing a text -/

/-- The text of the file that a path leads to. -/
def Disk.textAt (d : Disk) (cwd : List Name) (p : Path) : Except IoError String :=
  match d.readFile cwd p with
  | .error e => .error e
  | .ok bytes =>
    match Text.decode? bytes with
    | some text => .ok text
    | none => .error .notText

theorem Op.run_readText (p : Path) (w : World) :
    (Op.readText p).run.run w = ((w.disk.textAt w.cwd p).mapError fun e => .error (.io e), w) := by
  rw [Op.readText, Op.run_bind, Op.run_query, Disk.textAt]
  cases w.disk.readFile w.cwd p with
  | error e => rfl
  | ok bytes =>
    simp only [Except.mapError]
    cases Text.decode? bytes <;> rfl

theorem Op.run_writeText (p : Path) (text : String) (w : World) :
    (Op.writeText p text).run.run w =
      match w.disk.writeFile w.cwd p text.toUTF8 with
      | .ok disk => (.ok (), { w with disk })
      | .error e => (.error (.error (.io e)), w) := by
  rw [Op.writeText, Op.change, Op.run_bind, Op.run_query]
  cases w.disk.writeFile w.cwd p text.toUTF8 <;> rfl

/-! ### Running a program -/

/-- The record of a program that is run in a world. -/
def World.record (w : World) (i : Invocation) : Call :=
  ⟨i, w.environment, w.disk⟩

namespace Runner

/-- The world after a program was run. -/
def after (runner : Runner) (i : Invocation) (w : World) : World :=
  { w with
    disk := (runner i w).disk
    calls := w.calls ++ [w.record i]
    printed := w.printed ++ (runner i w).printed
    reported := w.reported ++ (runner i w).reported
    warnings := w.warnings ++ (runner i w).warnings }

/-- The output of a program that has to succeed, or the error with which it does not. -/
def answer (runner : Runner) (i : Invocation) (w : World) : Except Error ToolOutput :=
  match (runner i w).outcome with
  | .ok output =>
    if output.succeeded then .ok output
    else .error (.tool (.nonZeroExit i.commandLine output.code output.stderr))
  | .error cause => .error (.tool (.spawn i.commandLine cause))

section

variable {runner : Runner} {i : Invocation} {w : World}

/-- A program succeeds if it ends with exit code zero. -/
theorem answer_eq_ok_iff {output : ToolOutput} :
    runner.answer i w = .ok output ↔ (runner i w).outcome = .ok output ∧ output.code = some 0 := by
  unfold answer
  cases (runner i w).outcome with
  | error cause => simp
  | ok o =>
    have hs : o.succeeded = true ↔ o.code = some 0 := decide_eq_true_iff
    by_cases h : o.code = some 0
    · have hsame : o = output → output.code = some 0 := fun ho => ho ▸ h
      simpa [hs.mpr h] using hsame
    · have hother : o = output → ¬ output.code = some 0 := fun ho => ho ▸ h
      simpa [mt hs.mp h] using hother

/-- A program that has to succeed fails with an error about tools. -/
theorem exists_tool_of_answer {e : Error} (h : runner.answer i w = .error e) :
    ∃ t, e = .tool t := by
  unfold answer at h
  split at h
  · split at h
    · cases h
    · exact ⟨_, (Except.error.inj h).symm⟩
  · exact ⟨_, (Except.error.inj h).symm⟩

/-- **Running a program that has to succeed.** -/
theorem run_runChecked (runner : Runner) (i : Invocation) (w : World) :
    (runner.runChecked i).run.run w = ((runner.answer i w).mapError .error, runner.after i w) := by
  have hrun : (runner.run i).run.run w =
      match (runner i w).outcome with
      | .ok output => (.ok output, runner.after i w)
      | .error cause => (.error (.error (.tool (.spawn i.commandLine cause))), runner.after i w) :=
    rfl
  rw [runChecked, Op.run_bind, hrun, answer]
  cases (runner i w).outcome with
  | error cause => rfl
  | ok output =>
    cases hs : output.succeeded with
    | false => simp [hs, Op.run_fail, Except.mapError]
    | true =>
      simp only [hs, if_true]
      rfl

end

end Runner

/-! ### Changing nothing but the disk -/

namespace Op

/-- An operation changes nothing but the disk, and what holds of the disk still holds. -/
def Keeps {α : Type} (cwd : List Name) (I : Disk → Prop) (op : Op α) : Prop :=
  ∀ w, w.cwd = cwd → I w.disk → ∃ d, (op.run.run w).2 = { w with disk := d } ∧ I d

namespace Keeps

variable {α β : Type} {cwd : List Name} {I : Disk → Prop}

/-- An operation that keeps something true can follow one that made it true. -/
theorem after {op : Op α} {f : α → Op β} {w : World} {d : Disk}
    (hop : (op.run.run w).2 = { w with disk := d }) (hI : I d)
    (hf : ∀ a, (f a).Keeps w.cwd I) :
    ∃ d', ((op >>= f).run.run w).2 = { w with disk := d' } ∧ I d' := by
  rw [run_bind]
  rcases hrun : op.run.run w with ⟨e | a, w'⟩
  · rw [hrun] at hop
    exact ⟨d, hop, hI⟩
  · rw [hrun] at hop
    obtain rfl : w' = { w with disk := d } := hop
    exact hf a { w with disk := d } rfl hI

theorem bind {op : Op α} {f : α → Op β} (h : op.Keeps cwd I) (hf : ∀ a, (f a).Keeps cwd I) :
    (op >>= f).Keeps cwd I := by
  rintro w rfl hI
  obtain ⟨d, hd, hId⟩ := h w rfl hI
  exact after hd hId hf

theorem pure (a : α) : (Pure.pure a : Op α).Keeps cwd I :=
  fun w _ hI => ⟨w.disk, rfl, hI⟩

theorem changePartly {f : Disk → List Name → Except IoError Unit × Disk}
    (hf : ∀ d, I d → I (f d cwd).2) : (Op.changePartly f).Keeps cwd I := by
  intro w hc hI
  rw [run_changePartly]
  exact ⟨_, rfl, by rw [hc]; exact hf w.disk hI⟩

theorem forM {xs : List α} {f : α → Op PUnit} (hf : ∀ x ∈ xs, (f x).Keeps cwd I) :
    (xs.forM f).Keeps cwd I := by
  induction xs with
  | nil => exact pure _
  | cons x xs ih =>
    change (f x >>= fun _ => xs.forM f).Keeps cwd I
    exact bind (hf x (List.mem_cons_self ..)) fun _ =>
      ih fun y hy => hf y (List.mem_cons_of_mem _ hy)

end Keeps

end Op

/-! ### Running no program -/

namespace Op

/-- An operation runs no program.  Started on a disk of which `P` holds, it leaves one of which `Q`
holds, if it ends with a result. -/
def Works {α : Type} (cwd : List Name) (P : Disk → Prop) (op : Op α) (Q : α → Disk → Prop) : Prop :=
  ∀ w, w.cwd = cwd → (op.run.run w).2.cwd = cwd ∧ (op.run.run w).2.calls = w.calls ∧
    (P w.disk → ∀ a, (op.run.run w).1 = .ok a → Q a (op.run.run w).2.disk)

namespace Works

variable {α β : Type} {cwd : List Name} {P : Disk → Prop} {Q : α → Disk → Prop}
  {R : β → Disk → Prop}

/-- **One operation after another.** -/
theorem bind {op : Op α} {f : α → Op β} (h : op.Works cwd P Q)
    (hf : ∀ a, (f a).Works cwd (Q a) R) : (op >>= f).Works cwd P R := by
  intro w hw
  obtain ⟨hcwd, hcalls, hQ⟩ := h w hw
  rw [run_bind]
  rcases hop : op.run.run w with ⟨e | a, v⟩
  · rw [hop] at hcwd hcalls
    exact ⟨hcwd, hcalls, by simp⟩
  · rw [hop] at hcwd hcalls hQ
    obtain ⟨hcwd', hcalls', hR⟩ := hf a v hcwd
    exact ⟨hcwd', hcalls'.trans hcalls, fun hP => hR (hQ hP a rfl)⟩

theorem pure {a : α} (h : ∀ d, P d → Q a d) : (Pure.pure a : Op α).Works cwd P Q := by
  refine fun w hw => ⟨hw, rfl, fun hP b hb => ?_⟩
  obtain rfl : a = b := Except.ok.inj hb
  exact h _ hP

theorem warn (text : String) : (Op.warn text).Works cwd P fun _ => P :=
  fun _ hw => ⟨hw, rfl, fun hP _ _ => hP⟩

theorem ask (f : Disk → List Name → α) : (Op.ask f).Works cwd P fun _ => P :=
  fun _ hw => ⟨hw, rfl, fun hP _ _ => hP⟩

/-- The answer to a question about the disk is remembered. -/
theorem ask_eq (f : Disk → List Name → α) :
    (Op.ask f).Works cwd P fun a d => P d ∧ a = f d cwd := by
  rintro w rfl
  refine ⟨rfl, rfl, fun hP a ha => ⟨hP, ?_⟩⟩
  exact (Except.ok.inj ha).symm

theorem change {f : Disk → List Name → Except IoError Disk} {Q : Disk → Prop}
    (hf : ∀ d d', P d → f d cwd = .ok d' → Q d') : (Op.change f).Works cwd P fun _ => Q := by
  rintro w rfl
  rw [Op.change, run_bind, run_query]
  cases hd : f w.disk w.cwd with
  | error e => exact ⟨rfl, rfl, by simp [Except.mapError]⟩
  | ok d => exact ⟨rfl, rfl, fun hP _ _ => hf w.disk d hP hd⟩

theorem changePartly {f : Disk → List Name → Except IoError Unit × Disk} {Q : Disk → Prop}
    (hf : ∀ d, P d → (f d cwd).1 = .ok () → Q (f d cwd).2) :
    (Op.changePartly f).Works cwd P fun _ => Q := by
  rintro w rfl
  rw [run_changePartly]
  refine ⟨rfl, rfl, fun hP a ha => hf w.disk hP ?_⟩
  cases hr : (f w.disk w.cwd).1 with
  | error e => simp [hr, Except.mapError] at ha
  | ok u => rfl

theorem makeParents {p : Path} {Q : Disk → Prop} (hf : ∀ d, P d → Q (d.makeParents cwd p).2) :
    (Op.makeParents p).Works cwd P fun _ => Q := by
  simp only [Disk.makeParents] at hf
  rw [Op.makeParents]
  split
  · next parent hparent =>
    simp only [hparent] at hf
    exact changePartly fun d hd _ => hf d hd
  · next hparent =>
    simp only [hparent] at hf
    exact pure hf

/-- An operation for each element of a list keeps what holds of the elements that it was done for,
of its result and of the disk. -/
theorem foldlM_along {I : List α → β → Disk → Prop} {xs : List α} {f : β → α → Op β}
    (hf : ∀ done b, ∀ x ∈ xs, (f b x).Works cwd (I done b) (I (done ++ [x]))) (done : List α)
    (b : β) : (xs.foldlM f b).Works cwd (I done b) (I (done ++ xs)) := by
  induction xs generalizing done b with
  | nil =>
    rw [List.append_nil]
    exact pure fun _ => id
  | cons x xs ih =>
    rw [List.foldlM_cons]
    refine bind (hf done b x (List.mem_cons_self ..)) fun b' => ?_
    have hrest := ih (fun done b y hy => hf done b y (List.mem_cons_of_mem _ hy)) (done ++ [x]) b'
    rwa [List.append_assoc, List.singleton_append] at hrest

/-- The same of what does not depend on the elements. -/
theorem foldlM {xs : List α} {f : β → α → Op β}
    (hf : ∀ b, ∀ x ∈ xs, (f b x).Works cwd (R b) R) (b : β) :
    (xs.foldlM f b).Works cwd (R b) R :=
  foldlM_along (I := fun _ => R) (fun _ => hf) [] b

end Works

theorem run_discard_copyTree (source target : Path) (w : World) :
    (discard (copyTree source target)).run.run w =
      (((w.disk.copyTree w.cwd source target).1.map fun _ => ()).mapError fun e => .error (.io e),
        { w with disk := (w.disk.copyTree w.cwd source target).2 }) := by
  rw [run_discard, copyTree, run_bind, run_ask]
  simp only [run_bind, run_modify, run_ofExcept]
  cases (w.disk.copyTree w.cwd source target).1 <;> rfl

end Op

/-! ### Runs of tools -/

/-- From one world to another nothing changed the disk but the given runs of tools. -/
inductive Runs (runner : Runner) : World → List Call → World → Prop
  | nil {w w' : World} : w'.disk = w.disk → w'.cwd = w.cwd → w'.calls = w.calls →
    Runs runner w [] w'
  | call {w v w' : World} {cs : List Call} (i : Invocation) : v.disk = w.disk → v.cwd = w.cwd →
    v.calls = w.calls → Runs runner ((runner.run i).run.run v).2 cs w' →
      Runs runner w (⟨i, v.environment, v.disk⟩ :: cs) w'

namespace Runs

variable {runner : Runner} {w v w' : World} {cs ds : List Call}

theorem refl (w : World) : Runs runner w [] w := .nil rfl rfl rfl

theorem append (h : Runs runner w cs v) (h' : Runs runner v ds w') :
    Runs runner w (cs ++ ds) w' := by
  induction h with
  | nil hd hc hs =>
    cases h' with
    | nil hd' hc' hs' => exact .nil (hd'.trans hd) (hc'.trans hc) (hs'.trans hs)
    | call i hd' hc' hs' h' => exact .call i (hd'.trans hd) (hc'.trans hc) (hs'.trans hs) h'
  | call i hd hc hs _ ih => exact .call i hd hc hs (ih h')

theorem snd_run (i : Invocation) (w : World) :
    ((runner.run i).run.run w).2 =
      { w with
        disk := (runner i w).disk
        calls := w.calls ++ [⟨i, w.environment, w.disk⟩]
        printed := w.printed ++ (runner i w).printed
        reported := w.reported ++ (runner i w).reported
        warnings := w.warnings ++ (runner i w).warnings } := by
  change (StateT.run (ExceptT.run (runner.run i)) w).2 = _
  change (Runner.run runner i w).2 = _
  -- a program that cannot be started is on record, too
  rw [Runner.run]
  cases (runner i w).outcome <;> rfl

theorem cwd_eq (h : Runs runner w cs w') : w'.cwd = w.cwd := by
  induction h with
  | nil _ hc _ => exact hc
  | call i _ hc _ _ ih => rw [ih, snd_run, hc]

/-- The runs of tools are the calls that are on record. -/
theorem calls_eq (h : Runs runner w cs w') : w'.calls = w.calls ++ cs := by
  induction h with
  | nil _ _ hs => rw [hs, List.append_nil]
  | call i _ _ hs _ ih => rw [ih, snd_run, hs, List.append_assoc, List.singleton_append]

end Runs

/-- Something about the disk came about in the run of a tool between two worlds. -/
def CameAbout (runner : Runner) (w w' : World) (P : Disk → Prop) : Prop :=
  ∃ i v, v.cwd = w.cwd ∧ w.calls <+: v.calls ∧
    v.calls ++ [⟨i, v.environment, v.disk⟩] <+: w'.calls ∧
      ¬ P v.disk ∧ P (runner i v).disk

/-- **What is new on the disk came about in the run of a tool,** if nothing else changed it. -/
theorem exists_call_of_runs {runner : Runner} {w w' : World} {cs : List Call}
    (h : Runs runner w cs w') {P : Disk → Prop} (hbefore : ¬ P w.disk) (hafter : P w'.disk) :
    CameAbout runner w w' P := by
  induction h with
  | nil hd _ _ => exact absurd (hd ▸ hafter) hbefore
  | @call _ v _ _ i hd hc hs h ih =>
    have hcalls := h.calls_eq
    rw [Runs.snd_run] at hcalls
    by_cases hP : P (runner i v).disk
    · -- this tool did it; otherwise one of the later ones
      refine ⟨i, v, hc, hs ▸ List.prefix_refl _, ?_, hd ▸ hbefore, hP⟩
      rw [hcalls]
      exact List.prefix_append _ _
    · obtain ⟨j, u, hcu, hpre, hlast, hu⟩ := ih (by rwa [Runs.snd_run]) hafter
      rw [Runs.snd_run] at hcu hpre
      refine ⟨j, u, hcu.trans hc, ?_, hlast, hu⟩
      rw [← hs]
      exact (List.prefix_append _ _).trans hpre

namespace Op

/-- Only the tools that an operation runs change the disk.  If it ends with a result, those are the
given tools, and the result is as said. -/
def Runs {α : Type} (runner : Runner) (tools : List (Invocation → Prop)) (Q : α → Prop)
    (op : Op α) : Prop :=
  ∀ w, ∃ cs, SuiteGate.Runs runner w cs (op.run.run w).2 ∧ ∀ a, (op.run.run w).1 = .ok a →
    List.Forall₂ (fun c tool => tool c.invocation) cs tools ∧ Q a

namespace Runs

variable {α β : Type} {runner : Runner} {t u : List (Invocation → Prop)} {Q : α → Prop}
  {R : β → Prop}

/-- **One operation after another** runs the tools of both. -/
theorem bind {op : Op α} {f : α → Op β} (h : op.Runs runner t Q)
    (hf : ∀ a, Q a → (f a).Runs runner u R) : (op >>= f).Runs runner (t ++ u) R := by
  intro w
  obtain ⟨cs, hcs, htools⟩ := h w
  rw [run_bind]
  rcases hop : op.run.run w with ⟨e | a, v⟩
  · -- the second operation is not run
    rw [hop] at hcs
    exact ⟨cs, hcs, by simp⟩
  · rw [hop] at hcs htools
    obtain ⟨htools, hQ⟩ := htools a rfl
    obtain ⟨ds, hds, htools'⟩ := hf a hQ v
    refine ⟨cs ++ ds, hcs.append hds, fun b hb => ?_⟩
    obtain ⟨htools', hR⟩ := htools' b hb
    exact ⟨List.rel_append htools htools', hR⟩

/-- An operation that leaves the disk and the record of calls alone runs no tool. -/
theorem none {op : Op α} (h : ∀ w, (op.run.run w).2.disk = w.disk ∧
    (op.run.run w).2.cwd = w.cwd ∧ (op.run.run w).2.calls = w.calls) :
    op.Runs runner [] fun _ => True :=
  fun w => ⟨[], .nil (h w).1 (h w).2.1 (h w).2.2, fun _ _ => ⟨.nil, trivial⟩⟩

theorem pure {a : α} (h : Q a) : (Pure.pure a : Op α).Runs runner [] Q := by
  refine fun w => ⟨[], .refl w, fun b hb => ⟨.nil, ?_⟩⟩
  obtain rfl : a = b := Except.ok.inj hb
  exact h

theorem fail (e : Error) : (Op.fail e : Op α).Runs runner t Q :=
  fun w => ⟨[], .refl w, by simp [run_fail]⟩

theorem warn (text : String) : (Op.warn text).Runs runner [] fun _ => True :=
  none fun _ => ⟨rfl, rfl, rfl⟩

theorem getVariable (key : String) : (Op.getVariable key).Runs runner [] fun _ => True :=
  none fun _ => ⟨rfl, rfl, rfl⟩

theorem run {i : Invocation} {tool : Invocation → Prop} (h : tool i) :
    (runner.run i).Runs runner [tool] fun _ => True :=
  fun _ => ⟨[_], .call i rfl rfl rfl (.refl _), fun _ _ => ⟨.cons h .nil, trivial⟩⟩

theorem runChecked {i : Invocation} {tool : Invocation → Prop} (h : tool i) :
    (runner.runChecked i).Runs runner [tool] fun _ => True := by
  refine bind (t := [tool]) (u := []) (run h) fun output _ => ?_
  split
  · exact pure trivial
  · exact fail _

end Runs

end Op

end SuiteGate
