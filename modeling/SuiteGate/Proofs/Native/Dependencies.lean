import Mathlib.Tactic.Common
import SuiteGate.Proofs.Config.Validity
import SuiteGate.Proofs.Native.Environments
import SuiteGate.Proofs.Text.Fields
import SuiteGate.Proofs.Tools.BuildTool
/-!
# The native projects and archives

The native projects and archives are built and cleaned by one command of the build tool, which takes
their names as one text with commas between them.  No names at all would be everything, and a comma
in a name would be two names; a configuration that is accepted has names, and no commas in them
(`Config.IsAcceptable`), so what the command names is what is configured
(`BuildTool.exists_dependencyArgs`).

The headline is `nativeCommands_spec`: the command follows the C API project, and only if that went
well (`GoesOn`).
-/

namespace SuiteGate

/-! ### The names in one text -/

/-- **What a command is restricted to:** the names without a comma are found again in its
arguments. -/
theorem BuildTool.exists_dependencyArgs {dependencies : List String} (hne : dependencies ≠ [])
    (h : ∀ x ∈ dependencies, ',' ∉ x.toList) :
    ∃ list, dependencyArgs dependencies = ["--dependencies", list] ∧
      Text.split ',' list = dependencies := by
  refine ⟨Text.join "," dependencies, ?_, Text.split_join h hne⟩
  rw [dependencyArgs, if_neg (by simpa using hne)]

/-- An invocation is a command of the build tool in the suite, and names exactly the configured
projects and archives. -/
structure NamesDependencies (s : Suite) (name : String) (i : Invocation) : Prop where
  program : i.program = s.config.suite.mx
  cwd : i.cwd = some s.dir
  args : ∃ list, i.args = [name, "--dependencies", list] ∧
    Text.split ',' list = s.config.native.projects ++ s.config.native.archives

theorem namesDependencies_invocation {s : Suite} (name : String)
    (h : s.config.validate = .ok ()) :
    NamesDependencies s name
      (s.buildTool.invocation (name :: BuildTool.dependencyArgs s.config.native.dependencies)) := by
  have haccepted := Config.validate_eq_ok_iff.mp h
  obtain ⟨list, hargs, hsplit⟩ :=
    BuildTool.exists_dependencyArgs haccepted.dependencies haccepted.commas
  exact ⟨rfl, rfl, list, congrArg (name :: ·) hargs, hsplit⟩

/-! ### After the C API project -/

/-- A program is one that a build of the C API project runs. -/
def Capi.RunsFor (s : Suite) (c : Call) : Prop :=
  s.buildTool.AsksClasspath c.invocation ∨
    Python.Launches s (setupArgs s) (setupOptions s) c.invocation

/-- **An operation goes on** with the native projects and archives after a step on the C API
project: if that fails, it ends with the same error and runs nothing else, and if not, it runs one
more command, which names exactly what is configured. -/
structure GoesOn {α : Type} (s : Suite) (name : String) (step : Op α) (op : Op Unit)
    (w : World) : Prop where
  step_calls : ∃ cs, (step.run.run w).2.calls = w.calls ++ cs ∧ ∀ c ∈ cs, Capi.RunsFor s c
  failed : ∀ e, (step.run.run w).1 = .error e → op.run.run w = (.error e, (step.run.run w).2)
  succeeded : ∀ a, (step.run.run w).1 = .ok a → ∃ c,
    (op.run.run w).2.calls = (step.run.run w).2.calls ++ [c] ∧ NamesDependencies s name c.invocation

section

variable {α : Type} {s : Suite} {name : String} {step : Op α} {op : Op Unit} {w : World}

/-- One command behind a step. -/
theorem GoesOn.of_run {runner : Runner} (rest : Op Unit) (hvalid : s.config.validate = .ok ())
    (hstep : ∃ cs, (step.run.run w).2.calls = w.calls ++ cs ∧ ∀ c ∈ cs, Capi.RunsFor s c)
    (hop : op.run.run w = match step.run.run w with
      | (.ok _, v) => rest.run.run v
      | (.error e, v) => (.error e, v))
    (hrest : ∀ v, (rest.run.run v).2 = runner.after (s.buildTool.invocation
      (name :: BuildTool.dependencyArgs s.config.native.dependencies)) v) :
    GoesOn s name step op w := by
  refine ⟨hstep, fun e he => ?_, fun a ha => ?_⟩
  · rcases hrun : step.run.run w with ⟨r, v⟩
    rw [hrun] at he hop
    obtain rfl : r = .error e := he
    exact hop
  · rcases hrun : step.run.run w with ⟨r, v⟩
    rw [hrun] at ha hop
    obtain rfl : r = .ok a := ha
    refine ⟨v.record _, ?_, namesDependencies_invocation name hvalid⟩
    rw [hop, hrest]
    rfl

/-- **The programs of a build that is made if needed.** -/
theorem Capi.calls_buildIfNeeded (runner : Runner) (s : Suite) (w : World) :
    ∃ cs, ((buildIfNeeded runner s).run.run w).2.calls = w.calls ++ cs ∧
      ∀ c ∈ cs, RunsFor s c := by
  rcases stale_or_idle s w with ⟨v, hcheck, hv⟩ | hidle
  · rw [buildIfNeeded, Op.run_bind, run_needsBuild, hcheck]
    simp only [Except.mapError, hv, if_true]
    rw [Op.run_bind, clean, Op.run_changePartly]
    rcases Staleness.clean w.disk w.cwd [s.config.capiHeaders, s.config.capiHome] with ⟨e | u, d⟩
    · exact ⟨[], (List.append_nil _).symm, by simp⟩
    · obtain ⟨cs, hcalls, hruns, -⟩ := calls_build runner s { w with disk := d }
      refine ⟨cs, ?_, fun c => hruns.asks_or_launches⟩
      simp only [Except.mapError, Op.run_bind, Op.run_pure]
      rcases hbuild : (build runner s).run.run { w with disk := d } with ⟨e | u', v'⟩
      all_goals
        rw [hbuild] at hcalls
        exact hcalls
  · rw [buildIfNeeded_of_not_stale hidle]
    exact ⟨[], (List.append_nil _).symm, by simp⟩

end

/-- **Building and cleaning the native projects and archives.**  In a suite with a configuration
that is accepted, each of the two commands first builds or cleans the C API project; if that fails,
it ends with the same error, and if not, it runs one command of the build tool, which names exactly
the configured projects, followed by the archives. -/
theorem nativeCommands_spec (runner : Runner) (s : Suite) (w : World)
    (h : s.config.validate = .ok ()) :
    GoesOn s "build" (Capi.buildIfNeeded runner s) (nativeBuild runner s) w ∧
      GoesOn s "clean" (Capi.clean s) (nativeClean runner s) w := by
  -- cleaning the C API project runs nothing
  have hclean : ∃ cs, ((Capi.clean s).run.run w).2.calls = w.calls ++ cs ∧
      ∀ c ∈ cs, Capi.RunsFor s c := by
    rw [Capi.clean, Op.run_changePartly]
    exact ⟨[], (List.append_nil _).symm, by simp⟩
  constructor
  · refine .of_run (s.buildTool.build runner s.config.native.dependencies) h
      (Capi.calls_buildIfNeeded runner s w) ?_ fun v => by rw [BuildTool.run_build]; rfl
    rcases hrun : (Capi.buildIfNeeded runner s).run.run w with ⟨e | b, v⟩ <;>
      simp only [nativeBuild, Op.run_bind, Op.run_discard, hrun]
  · refine .of_run (s.buildTool.clean runner s.config.native.dependencies) h hclean ?_
      fun v => by rw [BuildTool.run_clean]; rfl
    rcases hrun : (Capi.clean s).run.run w with ⟨e | u, v⟩ <;>
      simp only [nativeClean, Op.run_bind, hrun]

/-- A suite with native projects and an archive of the name of one of them. -/
def nativeSuite : Suite :=
  { config :=
      { suite := { dir := ⟨"/"⟩ }
        capi := { sourceDir := ⟨"s"⟩, headersDir := ⟨"h"⟩, outputDir := ⟨"o"⟩ }
        native := { projects := ["a", "b"], archives := ["a"] } } }

/-- A build and a cleaning that go on, and a build that does not as the setup script fails. -/
theorem nativeCommands_spec_small :
    nativeSuite.config.validate = .ok () ∧
      (∃ query setup c, ((nativeBuild (Capi.smallTools [] [] 0) nativeSuite).run.run
          Capi.smallWorld).2.calls = [query, setup, c] ∧
        NamesDependencies nativeSuite "build" c.invocation) ∧
      (∃ c, ((nativeClean (Capi.smallTools [] [] 0) nativeSuite).run.run
          Capi.smallWorld).2.calls = [c] ∧
        NamesDependencies nativeSuite "clean" c.invocation) ∧
      ∃ query setup, ((nativeBuild (Capi.smallTools [] [] 1) nativeSuite).run.run
          Capi.smallWorld).2.calls = [query, setup] := by
  have hvalid : nativeSuite.config.validate = .ok () := by decide +kernel
  obtain ⟨hbuild, hclean⟩ :=
    nativeCommands_spec (Capi.smallTools [] [] 0) nativeSuite Capi.smallWorld hvalid
  obtain ⟨hfails, -⟩ :=
    nativeCommands_spec (Capi.smallTools [] [] 1) nativeSuite Capi.smallWorld hvalid
  have hruns : ((Capi.buildIfNeeded (Capi.smallTools [] [] 0) nativeSuite).run.run
        Capi.smallWorld).1 = .ok true ∧
      ((Capi.buildIfNeeded (Capi.smallTools [] [] 0) nativeSuite).run.run
        Capi.smallWorld).2.calls.length = 2 ∧
      ((Capi.clean nativeSuite).run.run Capi.smallWorld).1 = .ok () ∧
      ((Capi.clean nativeSuite).run.run Capi.smallWorld).2.calls.length = 0 ∧
      ((Capi.buildIfNeeded (Capi.smallTools [] [] 1) nativeSuite).run.run
        Capi.smallWorld).1.isOk = false ∧
      ((Capi.buildIfNeeded (Capi.smallTools [] [] 1) nativeSuite).run.run
        Capi.smallWorld).2.calls.length = 2 := by
    decide +kernel
  obtain ⟨hok, htwo, hcleaned, hnone, herror, htwo'⟩ := hruns
  refine ⟨hvalid, ?_, ?_, ?_⟩
  · obtain ⟨c, hcalls, hnames⟩ := hbuild.succeeded true hok
    obtain ⟨query, setup, hsteps⟩ := List.length_eq_two.mp htwo
    rw [hsteps] at hcalls
    exact ⟨query, setup, c, hcalls, hnames⟩
  · obtain ⟨c, hcalls, hnames⟩ := hclean.succeeded () hcleaned
    rw [List.length_eq_zero_iff.mp hnone] at hcalls
    exact ⟨c, hcalls, hnames⟩
  · have hfailed := hfails.failed
    rcases hrun : (Capi.buildIfNeeded (Capi.smallTools [] [] 1) nativeSuite).run.run
        Capi.smallWorld with ⟨r, v⟩
    rw [hrun] at herror htwo' hfailed
    cases r with
    | error e =>
      rw [hfailed e rfl]
      exact List.length_eq_two.mp htwo'
    | ok b => cases herror

end SuiteGate
