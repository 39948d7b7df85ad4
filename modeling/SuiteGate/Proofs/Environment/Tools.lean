import SuiteGate.GraalVm.Checks
import SuiteGate.Proofs.Operations
import SuiteGate.Style.Checks
import SuiteGate.Tests.Runs
/-!
# The environments of tools

Which environment a tool is started in depends on the operation that runs it.  `Op.ToolsIn` says
how: every tool of the operation is started in the environment that a function gives for the one at
the start of the operation, and unless the operation panics, it leaves the environment as it was.
An operation that opens no scope starts its tools in its own environment, `ToolsIn id`.  That is so
for the build tool, version control and the launchers, and for the checks and test runs that are
made of them.  Under overrides the tools see the updated environment (`Op.ToolsIn.withEnv`).
-/

namespace SuiteGate

namespace Op

section

variable {α β : Type} {f : Environment → Environment} {runner : Runner}

/-- Every tool of an operation is started in the environment that comes from that at its start, and
the operation leaves the environment alone, unless it panics. -/
def ToolsIn (f : Environment → Environment) (op : Op α) : Prop :=
  ∀ w, ∃ cs, (op.run.run w).2.calls = w.calls ++ cs ∧
    (∀ c ∈ cs, c.environment = f w.environment) ∧
    ((op.run.run w).1 ≠ .error .panic → (op.run.run w).2.environment = w.environment)

/-- An operation runs no tool and leaves the environment alone. -/
def RunsNone (op : Op α) : Prop :=
  ∀ w, (op.run.run w).2.calls = w.calls ∧ (op.run.run w).2.environment = w.environment

/-! ### Operations without tools -/

namespace RunsNone

theorem toolsIn {op : Op α} (h : op.RunsNone) : op.ToolsIn f :=
  fun w => ⟨[], by rw [(h w).1, List.append_nil], by simp, fun _ => (h w).2⟩

theorem pure (a : α) : (Pure.pure a : Op α).RunsNone := fun _ => ⟨rfl, rfl⟩

theorem fail (e : Error) : (Op.fail e : Op α).RunsNone := fun _ => ⟨rfl, rfl⟩

theorem get : (MonadState.get : Op World).RunsNone := fun _ => ⟨rfl, rfl⟩

theorem warn (text : String) : (Op.warn text).RunsNone := fun _ => ⟨rfl, rfl⟩

theorem ask (g : Disk → List Name → α) : (Op.ask g).RunsNone := fun _ => ⟨rfl, rfl⟩

theorem ofExcept {ε : Type} (wrap : ε → Error) (r : Except ε α) : (Op.ofExcept wrap r).RunsNone := by
  intro w
  rw [run_ofExcept]
  exact ⟨rfl, rfl⟩

theorem bind {op : Op α} {g : α → Op β} (h : op.RunsNone) (hg : ∀ a, (g a).RunsNone) :
    (op >>= g).RunsNone := by
  intro w
  have hop := h w
  rw [run_bind]
  rcases hrun : op.run.run w with ⟨e | a, v⟩
  · rw [hrun] at hop
    exact hop
  · rw [hrun] at hop
    exact ⟨(hg a v).1.trans hop.1, (hg a v).2.trans hop.2⟩

/-- Changing nothing of a world but its disk. -/
theorem modifyDisk (g : World → Disk) :
    (modify fun w => { w with disk := g w } : Op PUnit).RunsNone :=
  fun _ => ⟨rfl, rfl⟩

theorem query (g : Disk → List Name → Except IoError α) : (Op.query g).RunsNone :=
  bind (ask g) fun _ => ofExcept _ _

theorem change (g : Disk → List Name → Except IoError Disk) : (Op.change g).RunsNone :=
  bind (query g) fun disk => modifyDisk fun _ => disk

theorem changePartly (g : Disk → List Name → Except IoError Unit × Disk) :
    (Op.changePartly g).RunsNone :=
  bind (ask g) fun x => bind (modifyDisk fun _ => x.2) fun _ => ofExcept _ _

theorem readText (p : Path) : (Op.readText p).RunsNone := by
  refine bind (query _) fun bytes => ?_
  split
  · exact pure _
  · exact fail _

theorem writeText (p : Path) (text : String) : (Op.writeText p text).RunsNone :=
  change _

theorem forM {xs : List α} {g : α → Op PUnit} (hg : ∀ x ∈ xs, (g x).RunsNone) :
    (xs.forM g).RunsNone := by
  induction xs with
  | nil => exact pure _
  | cons x xs ih =>
    change (g x >>= fun _ => xs.forM g).RunsNone
    exact bind (hg x (List.mem_cons_self ..)) fun _ =>
      ih fun y hy => hg y (List.mem_cons_of_mem _ hy)

theorem freshPath (stem ending : String) : (Op.freshPath stem ending).RunsNone := by
  refine bind get fun w => ?_
  simp only
  split
  · exact pure _
  · exact fail _

theorem tryChange (g : Disk → List Name → Except IoError Disk) : (Op.tryChange g).RunsNone := by
  intro w
  unfold Op.tryChange
  rw [run_modify]
  simp only
  split <;> exact ⟨rfl, rfl⟩

theorem attempt {op : Op α} (h : op.RunsNone) : op.attempt.RunsNone := by
  intro w
  have hop := h w
  rw [run_attempt]
  rcases hrun : op.run.run w with ⟨(e | _) | a, v⟩ <;> (rw [hrun] at hop; exact hop)

end RunsNone

/-! ### Operations with tools -/

/-- The tools that were run after a run under overrides: those of the operation, or none if an
override was refused. -/
theorem calls_withEnv (o : Overrides) (op : Op α) (w : World) :
    ((Op.withEnv o op).run.run w).2.calls =
      if (o.apply w.environment).1 then
        (op.run.run { w with environment := o.update w.environment }).2.calls
      else w.calls := by
  change (Op.withEnv o op w).2.calls = _
  unfold Op.withEnv
  by_cases haccepted : (o.apply w.environment).1 = true
  · have hupdated : (o.apply w.environment).2 = o.update w.environment :=
      Overrides.updateList_of_applyList haccepted
    simp only [haccepted, if_true, hupdated]
    rfl
  · simp only [if_neg haccepted]

namespace ToolsIn

/-- **One operation after another.** -/
theorem bind {op : Op α} {g : α → Op β} (h : op.ToolsIn f) (hg : ∀ a, (g a).ToolsIn f) :
    (op >>= g).ToolsIn f := by
  intro w
  obtain ⟨cs, hcalls, henv, hleft⟩ := h w
  rw [run_bind]
  rcases hop : op.run.run w with ⟨e | a, v⟩
  · -- the second operation is not run
    rw [hop] at hcalls hleft
    exact ⟨cs, hcalls, henv, fun hpanic => hleft fun he => hpanic (by cases he; rfl)⟩
  · rw [hop] at hcalls hleft
    have hv : v.environment = w.environment := hleft (by simp)
    obtain ⟨ds, hcalls', henv', hleft'⟩ := hg a v
    refine ⟨cs ++ ds, ?_, fun c hc => ?_, fun hpanic => (hleft' hpanic).trans hv⟩
    · rw [hcalls', hcalls, List.append_assoc]
    · rcases List.mem_append.1 hc with hc | hc
      · exact henv c hc
      · rw [henv' c hc, hv]

theorem discard {op : Op α} (h : op.ToolsIn f) : (discard op : Op PUnit).ToolsIn f :=
  bind h fun _ => (RunsNone.pure _).toolsIn

theorem forM {xs : List α} {g : α → Op PUnit} (hg : ∀ x, (g x).ToolsIn f) :
    (xs.forM g).ToolsIn f := by
  induction xs with
  | nil => exact (RunsNone.pure _).toolsIn
  | cons x xs ih => exact bind (hg x) fun _ => ih

theorem attempt {op : Op α} (h : op.ToolsIn f) : op.attempt.ToolsIn f := by
  intro w
  obtain ⟨cs, hcalls, henv, hleft⟩ := h w
  rw [run_attempt]
  -- an error becomes a result, a panic stays one
  rcases hop : op.run.run w with ⟨(e | _) | a, v⟩ <;> rw [hop] at hcalls hleft
  · exact ⟨cs, hcalls, henv, fun _ => hleft (by simp)⟩
  · exact ⟨cs, hcalls, henv, fun hpanic => absurd rfl hpanic⟩
  · exact ⟨cs, hcalls, henv, fun _ => hleft (by simp)⟩

theorem thenAlways {op : Op α} {after : Op Unit} (h : op.ToolsIn f) (hafter : after.RunsNone) :
    (op.thenAlways after).ToolsIn f := by
  intro w
  obtain ⟨cs, hcalls, henv, hleft⟩ := h w
  have hrun : (op.thenAlways after).run.run w =
      ((op.run.run w).1, (after.run.run (op.run.run w).2).2) := rfl
  have hcleared := hafter (op.run.run w).2
  rw [hrun]
  exact ⟨cs, hcleared.1.trans hcalls, henv, fun hpanic => hcleared.2.trans (hleft hpanic)⟩

theorem withTempFile {stem ending contents : String} {body : Path → Op α}
    (h : ∀ p, (body p).ToolsIn f) : (Op.withTempFile stem ending contents body).ToolsIn f := by
  refine bind (RunsNone.freshPath stem ending).toolsIn fun p => ?_
  refine bind (RunsNone.writeText p contents).toolsIn fun _ => ?_
  exact thenAlways (h p) (RunsNone.tryChange _)

theorem withTempDir {stem : String} {body : Path → Op α} (h : ∀ p, (body p).ToolsIn f) :
    (Op.withTempDir stem body).ToolsIn f := by
  refine bind (RunsNone.freshPath stem "").toolsIn fun p => ?_
  refine bind (RunsNone.change _).toolsIn fun _ => ?_
  exact thenAlways (h p) (RunsNone.modifyDisk _)

/-- A tool is started in the environment of the process. -/
theorem run (i : Invocation) : (runner.run i).ToolsIn id := by
  intro w
  have hw := @Runs.snd_run runner i w
  refine ⟨[⟨i, w.environment, w.disk⟩], ?_, by simp, fun _ => ?_⟩ <;> rw [hw]

theorem runChecked (i : Invocation) : (runner.runChecked i).ToolsIn id := by
  refine bind (run i) fun output => ?_
  split
  · exact (RunsNone.pure _).toolsIn
  · exact (RunsNone.fail _).toolsIn

/-- **Under overrides** tools are started in the updated environment.  The earlier one is back
unless going back is refused, and that is a panic. -/
theorem withEnv {op : Op α} (h : op.ToolsIn id) (o : Overrides) :
    (Op.withEnv o op).ToolsIn o.update := by
  intro w
  have hleft := @environment_withEnv α o op w
  rw [calls_withEnv]
  split
  · obtain ⟨cs, hcalls, henv, -⟩ := h { w with environment := o.update w.environment }
    exact ⟨cs, hcalls, henv, hleft⟩
  · exact ⟨[], (List.append_nil _).symm, by simp, hleft⟩

end ToolsIn

end

end Op

/-! ### The build tool and version control -/

variable (runner : Runner)

namespace BuildTool

theorem toolsIn_command (t : BuildTool) (name : String) (args : List String) :
    (t.command runner name args).ToolsIn id :=
  .runChecked _

theorem toolsIn_lastLineOf (t : BuildTool) (args : List String) (missing : String) :
    (t.lastLineOf runner args missing).ToolsIn id := by
  refine .bind (.runChecked _) fun output => ?_
  split
  · exact (Op.RunsNone.pure _).toolsIn
  · exact (Op.RunsNone.fail _).toolsIn

theorem toolsIn_graalvmHome (t : BuildTool) : (t.graalvmHome runner).ToolsIn id :=
  .bind (toolsIn_lastLineOf runner t _ _) fun _ => (Op.RunsNone.pure _).toolsIn

theorem toolsIn_distributionOutput (t : BuildTool) (distribution : String) :
    (t.distributionOutput runner distribution).ToolsIn id :=
  .bind (toolsIn_lastLineOf runner t _ _) fun _ => (Op.RunsNone.pure _).toolsIn

end BuildTool

theorem Git.toolsIn_trackedFiles (g : Git) (tree : Path) :
    (g.trackedFiles runner tree).ToolsIn id := by
  refine .bind (.bind (.runChecked _) fun output => ?_) fun listing => ?_
  · exact (Op.RunsNone.pure _).toolsIn
  · exact (Op.RunsNone.pure _).toolsIn

/-! ### Launchers and their checks -/

namespace GraalVm

variable (s : Suite)

theorem runsNone_homeOf (launcher : Path) : (homeOf launcher).RunsNone := by
  unfold homeOf
  split
  · exact .pure _
  · exact .fail _

theorem Launcher.toolsIn_build (l : Launcher) (sandboxed : Bool) :
    (l.build runner s sandboxed).ToolsIn id := by
  refine .bind (.discard (.runChecked _)) fun _ => ?_
  exact .bind (BuildTool.toolsIn_graalvmHome runner _) fun _ => (Op.RunsNone.pure _).toolsIn

theorem Launcher.toolsIn_buildAndRun (l : Launcher) (args : List String) :
    (l.buildAndRun runner s args).ToolsIn id := by
  refine .bind (toolsIn_build runner s l _) fun launcher => ?_
  simp only
  split
  · exact .bind (.discard (.runChecked _)) fun _ => (Op.RunsNone.pure _).toolsIn
  · exact (Op.RunsNone.pure _).toolsIn

theorem toolsIn_runExpecting (i : Invocation) (texts : List String) :
    (runExpecting runner i texts).ToolsIn id := by
  refine .bind (.runChecked _) fun output => .forM fun text => Op.RunsNone.toolsIn ?_
  unfold expectText
  split
  · exact .pure _
  · exact .fail _

theorem runsNone_removeProgram (program : Path) : (removeProgram program).RunsNone := by
  refine .bind (.attempt (.change _)) fun result => ?_
  split
  · split
    · exact .warn _
    · exact .pure _
  · exact .pure _

theorem toolsIn_sharedLibraryCheck (sandboxed : Bool) :
    (sharedLibraryCheck runner s sandboxed).ToolsIn id := by
  refine .bind (Launcher.toolsIn_build runner s _ _) fun launcher => ?_
  refine .bind (runsNone_homeOf launcher).toolsIn fun home => .withTempFile fun source => ?_
  have hcompile : (compileAndRun runner s (libraryDir home) source (embeddedProgram s)).ToolsIn id :=
    .bind (.discard (.runChecked _)) fun _ => .discard (.runChecked _)
  refine .bind hcompile.attempt fun result => ?_
  refine .bind (runsNone_removeProgram _).toolsIn fun _ => ?_
  exact (Op.RunsNone.ofExcept _ _).toolsIn

theorem toolsIn_nativeImageCheck : (nativeImageCheck runner s).ToolsIn id := by
  refine .bind (Launcher.toolsIn_buildAndRun runner s _ _) fun launcher => ?_
  refine .bind (toolsIn_runExpecting runner _ _) fun _ => ?_
  refine .bind (.forM fun property => toolsIn_runExpecting runner _ _) fun _ => ?_
  refine .bind (runsNone_homeOf launcher).toolsIn fun home => ?_
  exact .bind (Op.RunsNone.change _).toolsIn fun _ => toolsIn_runExpecting runner _ _

theorem toolsIn_embeddingCheck : (embeddingCheck runner s).ToolsIn id := by
  refine .bind (Launcher.toolsIn_build runner s _ _) fun launcher => ?_
  split
  · exact (Op.RunsNone.fail _).toolsIn
  · refine .withTempDir fun dir => ?_
    refine .bind (Op.RunsNone.writeText _ _).toolsIn fun _ => ?_
    refine .bind (.discard (.runChecked _)) fun _ => ?_
    refine .bind (.discard (.runChecked _)) fun _ => ?_
    exact toolsIn_runExpecting runner _ _

end GraalVm

/-! ### Style checks and test runs -/

namespace Style

variable (s : Suite)

theorem toolsIn_checkCopyrights (fix : Bool) : (checkCopyrights runner s fix).ToolsIn id := by
  refine .bind (Git.toolsIn_trackedFiles runner _ _) fun names => .withTempFile fun list => ?_
  exact .discard (.runChecked _)

theorem toolsIn_styleChecks (fix : Bool) : (styleChecks runner s fix).ToolsIn id := by
  have hspotbugs : (discard (s.buildTool.command runner "spotbugs" []) : Op Unit).ToolsIn id :=
    .discard (BuildTool.toolsIn_command runner _ _ _)
  refine .bind (toolsIn_checkCopyrights runner s fix) fun _ => .bind Op.RunsNone.get.toolsIn ?_
  intro w
  split
  · refine .bind ?_ fun _ => hspotbugs
    exact .discard (BuildTool.toolsIn_command runner _ _ _)
  · exact hspotbugs

end Style

namespace Tests

variable (s : Suite)

theorem toolsIn_runTests (launcher : Path) (r : TestRun) :
    (runTests runner s launcher r).ToolsIn id :=
  .bind (Op.RunsNone.ask _).toolsIn fun _ => .discard (.runChecked _)

theorem toolsIn_runJunit (args : List String) : (runJunit runner s args).ToolsIn id := by
  refine .bind (BuildTool.toolsIn_distributionOutput runner _ _) fun home => ?_
  exact .discard (BuildTool.toolsIn_command runner _ _ _)

end Tests

end SuiteGate
