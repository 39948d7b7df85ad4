import SuiteGate.Config.Schema
import SuiteGate.Proofs.Environment.Entries
import SuiteGate.Proofs.Native.Rebuild
import SuiteGate.Proofs.Python.Launches
/-!
# The environment of the setup script

A launch runs in the environment of the process with the overrides of the caller, and only the home
of the launcher has a default of its own.  The setup script of the C API project is such a launch:
it sees no variable for the compiler, every other configured variable with its value, and all else
as it is in the process.  That takes configured names that a program reads as they were written: the
value of a variable with the name `CC=gcc` reaches the script as one of `CC`
(`configured_name_gives_compiler`).  The headline is `launch_environment`; `calls_build` says which
programs a build runs, however it ends.
-/

namespace SuiteGate

/-- The variables that a program reads in its environment, which is that of the process with the
overrides of the invocation. -/
def Call.received (c : Call) : List (String × String) :=
  (c.invocation.overrides.update c.environment).handed

namespace Capi

/-! ### The programs of a build -/

theorem keeps_prepare (s : Suite) (cwd : List Name) : (prepare s).Keeps cwd fun _ => True := by
  have hcopy : (discard (Op.copyTree (s.config.capiSource.child "include") s.config.capiHeaders) :
      Op PUnit).Keeps cwd fun _ => True := fun w _ _ =>
    ⟨_, congrArg Prod.snd (Op.run_discard_copyTree ..), trivial⟩
  have hstage : (stageHeaders s).Keeps cwd fun _ => True :=
    .bind (.changePartly fun _ _ => trivial) fun _ => .bind hcopy fun _ => .forM fun _ _ =>
      .changePartly fun _ _ => trivial
  exact .bind hstage fun _ => .bind (.changePartly fun _ _ => trivial) fun _ =>
    .changePartly fun _ _ => trivial

/-- Removing the scratch directory runs no program, and a build does not succeed without the setup
script. -/
theorem calls_runSetup (runner : Runner) (s : Suite) (w : World) :
    let setup := (Python.run runner s (setupArgs s) (setupOptions s)).run.run w
    ((runSetup runner s).run.run w).2.calls = setup.2.calls ∧
      (((runSetup runner s).run.run w).1 = .ok () → ∃ output, setup.1 = .ok output) := by
  intro setup
  rcases hrun : setup with ⟨fault | output, v⟩
  · obtain ⟨fault', d, hsetup, -⟩ := runSetup_of_error hrun
    rw [hsetup]
    exact ⟨rfl, by simp⟩
  · rw [runSetup_of_ok hrun, Op.removeTree, Op.run_changePartly]
    exact ⟨rfl, fun _ => ⟨output, rfl⟩⟩

/-- **A build** runs the programs of its launch in the environment of the process. -/
theorem calls_build (runner : Runner) (s : Suite) (w : World) :
    ∃ cs, ((build runner s).run.run w).2.calls = w.calls ++ cs ∧
      Python.RunCalls s (setupArgs s) (setupOptions s) w.environment cs ∧
      (((build runner s).run.run w).1 = .ok () → cs.length = 2) := by
  rw [build_eq, Op.run_bind]
  obtain ⟨d, hprepare, -⟩ := keeps_prepare s w.cwd w rfl trivial
  rcases hrun : (prepare s).run.run w with ⟨e | u, v⟩
  · rw [hrun] at hprepare
    obtain rfl : v = { w with disk := d } := hprepare
    exact ⟨[], (List.append_nil _).symm, .none, by simp⟩
  · rw [hrun] at hprepare
    obtain rfl : v = { w with disk := d } := hprepare
    obtain ⟨hcalls, hok⟩ := calls_runSetup runner s { w with disk := d }
    obtain ⟨cs, hcs, hruns, htwo⟩ := Python.calls_run runner s (setupArgs s) (setupOptions s)
      { w with disk := d }
    refine ⟨cs, hcalls.trans hcs, hruns, fun h => ?_⟩
    obtain ⟨output, houtput⟩ := hok h
    exact htwo output houtput

/-! ### What the setup script sees -/

theorem getElem?_setupOverrides (s : Suite) (k : String) :
    (setupOverrides s).changes[k]? =
      if k ∈ compilerVariables then some .remove
      else s.config.capi.buildEnv[k]?.map .set := by
  rw [setupOverrides, Overrides.getElem?_foldl_remove, Overrides.getElem?_ofPairs]

section

variable {s : Suite} {e : Environment} {k v : String}

theorem getElem?_setup_of_mem (hk : k ∈ compilerVariables) :
    ((Python.launchOverrides s (setupOverrides s) e).update e)[k]? = none := by
  have hne : k ≠ Python.homeVariable := by
    rintro rfl
    exact absurd hk (by decide)
  rw [Python.getElem?_update_launchOverrides_of_ne hne, Overrides.getElem?_update,
    getElem?_setupOverrides, if_pos hk]
  rfl

theorem getElem?_setup_of_configured (hk : k ∉ compilerVariables)
    (hv : s.config.capi.buildEnv[k]? = some v) :
    ((Python.launchOverrides s (setupOverrides s) e).update e)[k]? = some v := by
  have hchange : (setupOverrides s).changes[k]? = some (.set v) := by
    rw [getElem?_setupOverrides, if_neg hk, hv, Option.map_some]
  by_cases hhome : k = Python.homeVariable
  · subst hhome
    rw [Python.getElem?_update_launchOverrides, hchange]
    rfl
  · rw [Python.getElem?_update_launchOverrides_of_ne hhome, Overrides.getElem?_update, hchange]
    rfl

theorem getElem?_setup_of_unmentioned (hk : k ∉ compilerVariables)
    (hhome : k ≠ Python.homeVariable) (hnone : s.config.capi.buildEnv[k]? = none) :
    ((Python.launchOverrides s (setupOverrides s) e).update e)[k]? = e[k]? := by
  rw [Python.getElem?_update_launchOverrides_of_ne hhome, Overrides.getElem?_update,
    getElem?_setupOverrides, if_neg hk, hnone, Option.map_none]

end

/-- Configured names that are read as they were written leave no others for the setup script. -/
theorem isRead_setup {s : Suite} {e : Environment}
    (hconfigured : Environment.IsRead s.config.capi.buildEnv) (he : e.IsRead) :
    ((Python.launchOverrides s (setupOverrides s) e).update e).IsRead := by
  refine Environment.isRead_iff.mpr fun k v hv => ?_
  by_cases hk : k ∈ compilerVariables
  · simp [getElem?_setup_of_mem hk] at hv
  · cases hset : s.config.capi.buildEnv[k]? with
    | some x => exact Environment.isRead_iff.mp hconfigured k x hset
    | none =>
      by_cases hhome : k = Python.homeVariable
      · subst hhome
        decide
      · rw [getElem?_setup_of_unmentioned hk hhome hset] at hv
        exact Environment.isRead_iff.mp he k v hv

/-- A program that is started in the given environment reads no variable for the compiler, of every
other configured variable the configured value, and all that is not configured as it is there, but
for the launcher's home. -/
structure SeesConfigured (s : Suite) (e : Environment) (c : Call) : Prop where
  compiler : ∀ k ∈ ["CC", "CFLAGS", "LDFLAGS"], ∀ v, (k, v) ∉ c.received
  configured : ∀ k, k ∉ ["CC", "CFLAGS", "LDFLAGS"] → ∀ v, s.config.capi.buildEnv[k]? = some v →
    ∀ x, (k, x) ∈ c.received ↔ x = v
  unmentioned : ∀ k, k ∉ ["CC", "CFLAGS", "LDFLAGS"] → k ≠ "GRAAL_PYTHONHOME" →
    s.config.capi.buildEnv[k]? = none → ∀ x, (k, x) ∈ c.received ↔ e[k]? = some x

theorem received_of_launchOf {s : Suite} {e : Environment} {c : Call} {classpath : String}
    (henv : c.environment = e)
    (hi : c.invocation = Python.launchOf s (setupArgs s) (setupOptions s)
      (Python.launchOverrides s (setupOverrides s) e) classpath) :
    c.received = ((Python.launchOverrides s (setupOverrides s) e).update e).handed := by
  rw [Call.received, hi, henv]
  rfl

theorem seesConfigured_of_received {s : Suite} {e : Environment} {c : Call}
    (hreceived :
      c.received = ((Python.launchOverrides s (setupOverrides s) e).update e).handed)
    (hconfigured : Environment.IsRead s.config.capi.buildEnv) (he : e.IsRead) :
    SeesConfigured s e c := by
  have hmem : ∀ k v, (k, v) ∈ c.received ↔
      ((Python.launchOverrides s (setupOverrides s) e).update e)[k]? = some v := fun k v => by
    rw [hreceived, Environment.mem_handed_iff (isRead_setup hconfigured he)]
  refine ⟨fun k hk v => ?_, fun k hk v hv x => ?_, fun k hk hhome hnone x => ?_⟩
  · simp [hmem, getElem?_setup_of_mem hk]
  · rw [hmem, getElem?_setup_of_configured hk hv, Option.some.injEq, eq_comm]
  · rw [hmem, getElem?_setup_of_unmentioned hk hhome hnone]

/-- **The environment of a launch** is that of the process with the overrides of the caller, but
for the launcher's home, which has a default.  So the setup script that a build starts, if it gets
that far, sees what is configured and no variable for the compiler, as long as the configured names
are read as they were written. -/
theorem launch_environment (runner : Runner) (s : Suite) (w : World) :
    (∀ args options i w', (Python.assemble runner s args options).run.run w = (.ok i, w') →
      (∀ k, k ≠ "GRAAL_PYTHONHOME" → (i.overrides.update w.environment)[k]? =
        (options.overrides.update w.environment)[k]?) ∧
      (i.overrides.update w.environment)["GRAAL_PYTHONHOME"]? =
        (options.overrides.changes["GRAAL_PYTHONHOME"]?.map Change.value?).getD
          (w.environment["GRAAL_PYTHONHOME"]?.or (some s.config.devPythonHome.text))) ∧
    ∃ cs, ((build runner s).run.run w).2.calls = w.calls ++ cs ∧ cs.length ≤ 2 ∧
      (((build runner s).run.run w).1 = .ok () → cs.length = 2) ∧
      (∀ query ∈ cs[0]?, s.buildTool.AsksClasspath query.invocation) ∧
      ∀ setup ∈ cs[1]?, Python.Launches s (setupArgs s) (setupOptions s) setup.invocation ∧
        (Environment.IsRead s.config.capi.buildEnv → w.environment.IsRead →
          SeesConfigured s w.environment setup) := by
  constructor
  · intro args options i w' h
    obtain ⟨ws, output, classpath, -, -, rfl, -⟩ := Python.exists_launch_of_assemble h
    exact ⟨fun k hk => Python.getElem?_update_launchOverrides_of_ne hk,
      Python.getElem?_update_launchOverrides s options.overrides w.environment⟩
  · obtain ⟨cs, hcalls, hruns, htwo⟩ := calls_build runner s w
    refine ⟨cs, hcalls, hruns.length_le, htwo, fun _ => hruns.asksClasspath, fun setup hc => ?_⟩
    obtain ⟨henv, classpath, hlaunch⟩ := hruns.exists_launchOf hc
    have hlaunches : Python.Launches s (setupArgs s) (setupOptions s) setup.invocation := by
      rw [hlaunch]
      exact ⟨rfl, rfl, List.suffix_append _ _⟩
    exact ⟨hlaunches, seesConfigured_of_received (received_of_launchOf henv hlaunch)⟩

theorem launch_environment_small :
    let s : Suite := { config :=
      { suite := { dir := ⟨"/"⟩ }
        capi :=
          { sourceDir := ⟨"s"⟩, headersDir := ⟨"h"⟩, outputDir := ⟨"o"⟩
            buildEnv := NameMap.ofPairs [("CFLAGS", "-O2"), ("LANG", "C")] } } }
    let w := { smallWorld with
      environment := NameMap.ofPairs [("CC", "gcc"), ("LANG", "de"), ("USER", "me")] }
    let options : Python.RunOptions := { overrides := Overrides.empty.remove "USER" }
    let runner := smallTools [] [] 0
    (∃ i w', (Python.assemble runner s [] options).run.run w = (.ok i, w') ∧
      (i.overrides.update w.environment)["USER"]? = none ∧
      (i.overrides.update w.environment)["GRAAL_PYTHONHOME"]? = some "/graalpython") ∧
    ∃ query setup, ((build runner s).run.run w).2.calls = [query, setup] ∧
      (∀ v, ("CC", v) ∉ setup.received) ∧ (∀ v, ("CFLAGS", v) ∉ setup.received) ∧
      (∀ v, ("LANG", v) ∈ setup.received ↔ v = "C") ∧ ("USER", "me") ∈ setup.received := by
  intro s w options runner
  obtain ⟨hlaunch, cs, hcalls, -, htwo, -, hsetup⟩ := launch_environment runner s w
  constructor
  · have hok : ((Python.assemble runner s [] options).run.run w).1.toOption.isSome = true := by
      decide +kernel
    rcases hrun : (Python.assemble runner s [] options).run.run w with ⟨e | i, w'⟩
    · rw [hrun] at hok
      cases hok
    · obtain ⟨hother, hhome⟩ := hlaunch [] options i w' hrun
      exact ⟨i, w', rfl, (hother "USER" (by decide)).trans (by decide +kernel),
        hhome.trans (by decide +kernel)⟩
  · have hok : ((build runner s).run.run w).1 = .ok () := by
      decide +kernel
    obtain ⟨query, setup, rfl⟩ := List.length_eq_two.mp (htwo hok)
    have hsees := (hsetup setup rfl).2 (by decide +kernel) (by decide +kernel)
    exact ⟨query, setup, hcalls, hsees.compiler "CC" (by decide),
      hsees.compiler "CFLAGS" (by decide),
      hsees.configured "LANG" (by decide) "C" (by decide +kernel),
      (hsees.unmentioned "USER" (by decide) (by decide) (by decide +kernel) "me").mpr
        (by decide +kernel)⟩

/-- The setup script reads a variable for the compiler that is configured with a name that holds an
`=`: the value of `CC=gcc` reaches it as one of `CC`. -/
theorem configured_name_gives_compiler :
    let s : Suite := { config :=
      { suite := { dir := ⟨"/"⟩ }
        capi :=
          { sourceDir := ⟨"s"⟩, headersDir := ⟨"h"⟩, outputDir := ⟨"o"⟩
            buildEnv := NameMap.ofPairs [("CC=gcc", "x")] } } }
    let runner := smallTools [] [] 0
    ((build runner s).run.run smallWorld).1 = .ok () ∧
    ∃ query setup, ((build runner s).run.run smallWorld).2.calls = [query, setup] ∧
      Python.Launches s (setupArgs s) (setupOptions s) setup.invocation ∧
      setup.received = [("CC", "gcc=x"), ("GRAAL_PYTHONHOME", "/graalpython")] := by
  intro s runner
  have hok : ((build runner s).run.run smallWorld).1 = .ok () := by
    decide +kernel
  obtain ⟨cs, hcalls, hruns, htwo⟩ := calls_build runner s smallWorld
  obtain ⟨query, setup, rfl⟩ := List.length_eq_two.mp (htwo hok)
  obtain ⟨henv, classpath, hlaunch⟩ := hruns.exists_launchOf (c := setup) rfl
  refine ⟨hok, query, setup, hcalls, ?_, ?_⟩
  · rw [hlaunch]
    exact ⟨rfl, rfl, List.suffix_append _ _⟩
  · rw [received_of_launchOf henv hlaunch]
    decide +kernel

end Capi

end SuiteGate
