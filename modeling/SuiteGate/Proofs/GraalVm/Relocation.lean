import SuiteGate.Proofs.Disk.Renames
import SuiteGate.Proofs.Host.Outputs
import SuiteGate.Proofs.Parents
import SuiteGate.Proofs.Tools.BuildTool
/-!
# Moving a GraalVM

The check of the native launcher moves the GraalVM that was built to a place beside it and leaves it
there.  Up to the move it runs one program after another (`GraalVm.firstStages`); if all of these do
as expected (`GraalVm.Attempt`), what becomes of the check depends on the place beside the GraalVM
(`GraalVm.exists_relocates_of_attempt`): nothing, or an empty directory, gives way, and anything
else makes the move fail, as does a directory that is not writable.

So the check cannot be repeated.  A GraalVM that was moved stays where it is, and unless a tool
removes it, or takes the write permission of the directory that it stands in, every later check that
comes to the move fails there, however many checks were run in between
(`GraalVm.nativeImageCheck_spec`).
-/

namespace SuiteGate

/-- The name of a GraalVM that was moved. -/
def Name.moved (x : Name) : Name where
  text := x.text ++ "_new"
  valid := by
    have hne : ∀ s : String, 'w' ∉ s.toList → x.text ++ "_new" ≠ s := by
      rintro s hs rfl
      simp at hs
    have hslash : '/' ∉ (x.text ++ "_new").toList := by
      rw [String.toList_append, List.mem_append, not_or]
      exact ⟨x.slash_not_mem, by decide⟩
    simpa [hne "" (by decide), hne "." (by decide), hne ".." (by decide)] using hslash

theorem Name.contains_nul_moved (x : Name) :
    x.moved.text.toList.contains '\x00' = x.text.toList.contains '\x00' := by
  simp [moved]

theorem Name.ne_moved (x : Name) : x ≠ x.moved := by
  intro h
  have hlength := congrArg (fun y : Name => y.text.toList.length) h
  simp [moved] at hlength

/-- A list of programs succeed one after another, each with an output as it is expected. -/
def Runner.Passes (runner : Runner) : List (Invocation × (ToolOutput → Prop)) → World → Prop
  | [], _ => True
  | (i, expected) :: rest, w =>
    (∃ output, runner.answer i w = .ok output ∧ expected output) ∧
      runner.Passes rest (runner.after i w)

/-- The world after a list of programs was run. -/
def Runner.afterAll (runner : Runner) (is : List Invocation) (w : World) : World :=
  is.foldl (fun w i => runner.after i w) w

namespace GraalVm

open Disk

theorem relocated_child (dir : Path) (x : Name) :
    relocated (dir.child x.text) = dir.child x.moved.text := by
  rw [relocated, Path.child, Path.child, Path.join, Path.join, Path.isAbsolute_name,
    Path.isAbsolute_name, Bool.false_or]
  split
  · rfl
  · split <;> simp only [Name.moved, String.append_assoc]

theorem isName_launcher : ("graalpython" != "" && "graalpython" != "." && "graalpython" != ".." &&
    !"graalpython".toList.contains '/') = true := by
  decide

/-- The launcher of a GraalVM is inside it. -/
theorem home_of_launcherPath (dir : Path) (x : Name) :
    (launcherPath (dir.child x.text)).parent?.bind Path.parent? = some (dir.child x.text) := by
  have hbin := Path.parent?_child_child (dir.child x.text) ⟨"bin", by decide⟩
    ⟨"graalpython", isName_launcher⟩
  rw [launcherPath, binDir, hbin, Option.bind_some]
  exact Path.parent?_child_child dir x ⟨"bin", by decide⟩

/-! ### Up to the move -/

/-- The build tool as it builds a launcher. -/
def Launcher.tool (l : Launcher) (s : Suite) (sandboxed : Bool) : BuildTool :=
  (s.buildTool.withDynamicImports (dynamicImports sandboxed)).withEnv l.overrides

/-- The programs that are run before a GraalVM with the given home is moved, with what is expected
of them. -/
def firstStages (s : Suite) (home : String) : List (Invocation × (ToolOutput → Prop)) :=
  let tool := Launcher.nativeImage.tool s false
  let launcher := launcherPath ⟨home⟩
  let printing (text : String) (output : ToolOutput) : Prop :=
    Text.contains output.combined text = true
  [(tool.buildCommand [], fun _ => True),
    (tool.homeQuery, fun output => output.lastLine? = some home),
    ((Invocation.of launcher.text).withArgs ["--version"], fun _ => True),
    ((benchmarkInvocation s launcher).teed, printing s.config.gate.svmBenchmarkPattern),
    ((patchedInvocation launcher "__path__").teed, printing patchedLibrary),
    ((patchedInvocation launcher "__file__").teed, printing patchedLibrary)]

/-- The world in which the GraalVM is moved. -/
def beforeMove (runner : Runner) (s : Suite) (home : String) (w : World) : World :=
  runner.afterAll ((firstStages s home).map Prod.fst) w

section

variable {runner : Runner} {s : Suite} {i : Invocation} {texts : List String} {w : World}

theorem snd_run_expectTexts {output : ToolOutput} :
    ((texts.forM (expectText i output)).run.run w).2 = w := by
  induction texts with
  | nil => rfl
  | cons t texts ih =>
    rw [Op.run_forM_cons, expectText]
    by_cases h : Text.contains output.combined t = true
    · rw [if_pos h, Op.run_pure]
      exact ih
    · rw [if_neg h, Op.run_fail]

/-- A check of the output leaves what the program leaves. -/
theorem snd_run_runExpecting :
    ((runExpecting runner i texts).run.run w).2 = runner.after i.teed w := by
  rw [runExpecting, Op.run_bind, Runner.run_runChecked]
  cases runner.answer i.teed w with
  | error e => rfl
  | ok output => exact snd_run_expectTexts

theorem run_runExpecting_of_answer {output : ToolOutput}
    (h : runner.answer i.teed w = .ok output)
    (htexts : ∀ t ∈ texts, Text.contains output.combined t = true) :
    (runExpecting runner i texts).run.run w = (.ok (), runner.after i.teed w) :=
  Prod.ext (run_runExpecting.mpr ⟨output, h, htexts⟩) snd_run_runExpecting

/-- The check without its parts. -/
theorem nativeImageCheck_eq (runner : Runner) (s : Suite) :
    nativeImageCheck runner s = (do
      (Launcher.nativeImage.tool s false).build runner []
      let launcher := launcherPath (← (Launcher.nativeImage.tool s false).graalvmHome runner)
      discard <| runner.runChecked ((Invocation.of launcher.text).withArgs ["--version"])
      runExpecting runner (benchmarkInvocation s launcher) [s.config.gate.svmBenchmarkPattern]
      runExpecting runner (patchedInvocation launcher "__path__") [patchedLibrary]
      runExpecting runner (patchedInvocation launcher "__file__") [patchedLibrary]
      let home ← homeOf launcher
      Op.change fun d cwd => d.rename cwd home (relocated home)
      runExpecting runner (relocatedInvocation (relocated home)) [preparedMark]) := by
  have htake : takeSandboxed ["--version"] = (false, ["--version"]) := by decide
  simp [nativeImageCheck, Launcher.buildAndRun, htake, Launcher.build, Launcher.tool]

/-- **A check that comes as far as the move** goes on with it. -/
theorem run_nativeImageCheck_of_passes {printed : String} {home : Path}
    (h : runner.Passes (firstStages s printed) w)
    (hhome : (launcherPath ⟨printed⟩).parent?.bind Path.parent? = some home) :
    (nativeImageCheck runner s).run.run w =
      ((do
        Op.change fun d cwd => d.rename cwd home (relocated home)
        runExpecting runner (relocatedInvocation (relocated home)) [preparedMark]) :
          Op Unit).run.run (beforeMove runner s printed w) := by
  obtain ⟨⟨built, hbuilt, -⟩, ⟨asked, hasked, hline⟩, ⟨started, hstarted, -⟩,
    ⟨benchmark, hbenchmark, hpattern⟩, ⟨path, hpath, hpathText⟩, ⟨file, hfile, hfileText⟩, -⟩ := h
  have hhomeOf : ∀ v, (homeOf (launcherPath ⟨printed⟩)).run.run v = (.ok home, v) := fun v => by
    rw [homeOf, hhome]
    rfl
  -- each stage goes as expected, and the rest is run in the world behind it
  rw [nativeImageCheck_eq, Op.run_bind, BuildTool.run_build, hbuilt]
  simp only [Except.map, Except.mapError]
  rw [Op.run_bind, BuildTool.run_graalvmHome,
    Runner.lastLineAnswer_eq_ok_iff.mpr ⟨asked, hasked, hline⟩]
  simp only [Except.map, Except.mapError]
  rw [Op.run_bind, Op.run_discard, Runner.run_runChecked, hstarted]
  simp only [Except.mapError]
  rw [Op.run_bind, run_runExpecting_of_answer hbenchmark (by simpa using hpattern)]
  simp only
  rw [Op.run_bind, run_runExpecting_of_answer hpath (by simpa using hpathText)]
  simp only
  rw [Op.run_bind, run_runExpecting_of_answer hfile (by simpa using hfileText)]
  simp only
  rw [Op.run_bind, hhomeOf]
  rfl

end

/-! ### Checks that stop before the move -/

/-- An operation ends with an error, and nothing but tools changed the disk. -/
def Stops {α : Type} (runner : Runner) (op : Op α) (w : World) : Prop :=
  ∃ e cs u, op.run.run w = (.error e, u) ∧ Runs runner w cs u

section

variable {α β : Type} {runner : Runner} {s : Suite} {i : Invocation} {w : World}
  {expected : ToolOutput → Prop}

/-- An operation runs one program, and gives a certain result if that does as expected. -/
def IsStage (runner : Runner) (i : Invocation) (expected : ToolOutput → Prop) (op : Op α) (a : α)
    (w : World) : Prop :=
  (∃ e, op.run.run w = (.error e, runner.after i w)) ∨
    (∃ output, runner.answer i w = .ok output ∧ expected output) ∧
      op.run.run w = (.ok a, runner.after i w)

theorem runs_of_after {cs : List Call} {u : World} (h : Runs runner (runner.after i w) cs u) :
    Runs runner w (w.record i :: cs) u :=
  .call i rfl rfl rfl (by rw [Runs.snd_run]; exact h)

/-- Either a program stops the operation or the rest is run. -/
theorem IsStage.bind {op : Op α} {f : α → Op β} {a : α}
    {rest : List (Invocation × (ToolOutput → Prop))} (h : IsStage runner i expected op a w)
    (hrest : Stops runner (f a) (runner.after i w) ∨ runner.Passes rest (runner.after i w)) :
    Stops runner (op >>= f) w ∨ runner.Passes ((i, expected) :: rest) w := by
  rcases h with ⟨e, hrun⟩ | ⟨hanswer, hrun⟩
  · exact .inl ⟨e, [w.record i], _, by rw [Op.run_bind, hrun], runs_of_after (.refl _)⟩
  · refine hrest.imp ?_ fun hpasses => ⟨hanswer, hpasses⟩
    rintro ⟨e, cs, u, hrest, hruns⟩
    refine ⟨e, _, u, ?_, runs_of_after hruns⟩
    rw [Op.run_bind, hrun]
    exact hrest

theorem isStage_build (t : BuildTool) :
    IsStage runner (t.buildCommand []) (fun _ => True) (t.build runner []) () w := by
  rw [IsStage, BuildTool.run_build]
  cases runner.answer (t.buildCommand []) w with
  | error e => exact .inl ⟨_, rfl⟩
  | ok output => exact .inr ⟨⟨output, rfl, trivial⟩, rfl⟩

theorem isStage_runChecked :
    IsStage runner i (fun _ => True) (discard (runner.runChecked i)) ⟨⟩ w := by
  rw [IsStage, Op.run_discard, Runner.run_runChecked]
  cases runner.answer i w with
  | error e => exact .inl ⟨_, rfl⟩
  | ok output => exact .inr ⟨⟨output, rfl, trivial⟩, rfl⟩

theorem isStage_graalvmHome (runner : Runner) (t : BuildTool) (w : World) :
    ∃ printed, IsStage runner t.homeQuery (fun output => output.lastLine? = some printed)
      (t.graalvmHome runner) ⟨printed⟩ w := by
  simp only [IsStage, BuildTool.run_graalvmHome]
  cases hline : runner.lastLineAnswer t.homeQuery "no GraalVM home printed" w with
  | error e => exact ⟨"", .inl ⟨_, rfl⟩⟩
  | ok printed => exact ⟨printed, .inr ⟨Runner.lastLineAnswer_eq_ok_iff.mp hline, rfl⟩⟩

theorem isStage_runExpecting (text : String) :
    IsStage runner i.teed (fun output => Text.contains output.combined text = true)
      (runExpecting runner i [text]) () w := by
  have hworld : ((runExpecting runner i [text]).run.run w).2 = runner.after i.teed w :=
    snd_run_runExpecting
  rcases hrun : (runExpecting runner i [text]).run.run w with ⟨e | ⟨⟩, v⟩
  · obtain rfl : v = runner.after i.teed w := by rw [← hworld, hrun]
    exact .inl ⟨e, hrun⟩
  · obtain rfl : v = runner.after i.teed w := by rw [← hworld, hrun]
    obtain ⟨output, hanswer, htexts⟩ := run_runExpecting.mp (congrArg Prod.fst hrun)
    exact .inr ⟨⟨output, hanswer, htexts text (by simp)⟩, hrun⟩

/-- **A check stops at a program that does not do as expected,** or comes as far as the move. -/
theorem stops_or_passes (runner : Runner) (s : Suite) (w : World) :
    Stops runner (nativeImageCheck runner s) w ∨
      ∃ printed, runner.Passes (firstStages s printed) w := by
  -- which home the later stages are about is known from the answer to the second one
  let tool := Launcher.nativeImage.tool s false
  obtain ⟨printed, hhome⟩ :=
    isStage_graalvmHome runner tool (runner.after (tool.buildCommand []) w)
  have h : Stops runner (nativeImageCheck runner s) w ∨
      runner.Passes (firstStages s printed) w := by
    rw [nativeImageCheck_eq]
    refine (isStage_build _).bind (hhome.bind (isStage_runChecked.bind ?_))
    refine (isStage_runExpecting _).bind ((isStage_runExpecting _).bind ?_)
    exact (isStage_runExpecting _).bind (.inr trivial)
  exact h.imp_right fun hpasses => ⟨printed, hpasses⟩

end

/-! ### The move -/

/-- Where a GraalVM stands: the home that the build tool prints, which is an entry of a directory,
and the place of that directory. -/
structure Site where
  printed : String
  dir : Path
  name : Name
  above : List Name
  inside : (launcherPath ⟨printed⟩).parent?.bind Path.parent? = some (dir.child name.text)

namespace Site

/-- The site of a GraalVM whose home is printed as a directory and a name in it. -/
def of (dir : Path) (name : Name) (above : List Name) : Site :=
  ⟨(dir.child name.text).text, dir, name, above, home_of_launcherPath dir name⟩

/-- The home of the GraalVM. -/
def home (site : Site) : Path :=
  site.dir.child site.name.text

/-- The place of the GraalVM. -/
def place (site : Site) : List Name :=
  site.above ++ [site.name]

/-- The place that it is moved to. -/
def newPlace (site : Site) : List Name :=
  site.above ++ [site.name.moved]

/-- A GraalVM was moved to the new place, in a directory that is still writable. -/
def Taken (site : Site) (d : Disk) : Prop :=
  d.obstacle? site.newPlace = some .notEmpty

end Site

/-- A check that comes as far as the move, of a GraalVM that stands at a site. -/
structure Attempt (runner : Runner) (s : Suite) (site : Site) (w : World) : Prop where
  passes : runner.Passes (firstStages s site.printed) w
  stands : ∃ l e es, (beforeMove runner s site.printed w).disk.locate
    (beforeMove runner s site.printed w).cwd site.home false = .ok (site.place, .dir l (e :: es))

/-- The check of a GraalVM that was moved: the launcher has to start from its new place. -/
def relocatedStage (site : Site) : Invocation :=
  (relocatedInvocation (relocated site.home)).teed

section

variable {runner : Runner} {s : Suite} {site : Site} {w : World}

theorem run_change_rename (source target : Path) (w : World) :
    (Op.change fun d cwd => d.rename cwd source target).run.run w =
      match w.disk.rename w.cwd source target with
      | .ok disk => (.ok (), { w with disk })
      | .error e => (.error (.error (.io e)), w) := by
  rw [Op.change, Op.run_bind, Op.run_query]
  cases w.disk.rename w.cwd source target <;> rfl

/-- What a check comes to that moves its GraalVM: nothing else changes, and the launcher has to
start from the new place. -/
structure Relocates (runner : Runner) (site : Site) (v : World) (disk : Disk)
    (ended : Except Fault Unit × World) : Prop where
  moved : v.disk.Moved site.place site.newPlace disk
  world : ended.2 = runner.after (relocatedStage site) { v with disk }
  result : ended.1 = .ok () ↔ ∃ output,
    runner.answer (relocatedStage site) { v with disk } = .ok output ∧
      Text.contains output.combined preparedMark = true

/-- The move of a GraalVM that stands at its site. -/
theorem rename_of_attempt (h : Attempt runner s site w) :
    match (beforeMove runner s site.printed w).disk.obstacle? site.newPlace with
    | none => ∃ disk,
        (beforeMove runner s site.printed w).disk.rename (beforeMove runner s site.printed w).cwd
          site.home (relocated site.home) = .ok disk ∧
        (beforeMove runner s site.printed w).disk.Moved site.place site.newPlace disk
    | some e =>
      (beforeMove runner s site.printed w).disk.rename (beforeMove runner s site.printed w).cwd
        site.home (relocated site.home) = .error (.os e) := by
  obtain ⟨l, e, es, hstands⟩ := h.stands
  have hnul : site.name.moved.text.toList.contains '\x00' = false := by
    have hfol := (locate_eq_ok_iff.mp hstands).1.noNul
    rw [Site.home, Path.contains_nul_child, Bool.or_eq_false_iff] at hfol
    rw [Name.contains_nul_moved, hfol.2]
  rw [Site.home, relocated_child]
  exact rename_child hstands rfl site.name.ne_moved hnul

/-- **A GraalVM is moved** unless something is in the way. -/
theorem exists_relocates_of_attempt (h : Attempt runner s site w)
    (hfree : (beforeMove runner s site.printed w).disk.obstacle? site.newPlace = none) :
    ∃ disk, Relocates runner site (beforeMove runner s site.printed w) disk
      ((nativeImageCheck runner s).run.run w) := by
  have hrename := rename_of_attempt h
  rw [hfree] at hrename
  obtain ⟨disk, hok, hmoved⟩ := hrename
  have hrun := run_nativeImageCheck_of_passes h.passes site.inside
  rw [← Site.home, Op.run_bind, run_change_rename, hok] at hrun
  simp only at hrun
  rw [hrun]
  refine ⟨disk, hmoved, snd_run_runExpecting, run_runExpecting.trans ?_⟩
  simp only [List.forall_mem_singleton]
  rfl

/-- **A check fails at the move** if something is in the way. -/
theorem run_nativeImageCheck_of_obstacle (h : Attempt runner s site w) {e : OsError}
    (hobstacle : (beforeMove runner s site.printed w).disk.obstacle? site.newPlace = some e) :
    (nativeImageCheck runner s).run.run w =
      (.error (.error (.io (.os e))), beforeMove runner s site.printed w) := by
  have hrename := rename_of_attempt h
  rw [hobstacle] at hrename
  rw [run_nativeImageCheck_of_passes h.passes site.inside, ← Site.home, Op.run_bind,
    run_change_rename, hrename]

/-! ### One check after another -/

/-- No program of a runner takes away a GraalVM that was moved, or the permission to write where it
stands. -/
def Spares (runner : Runner) (site : Site) : Prop :=
  ∀ i w, site.Taken w.disk → site.Taken (runner i w).disk

/-- Checks are run one after another, each with tools of its own.  They may fail or succeed, but
a check that comes as far as the move finds a GraalVM at the site, and no tool takes away one that
was moved. -/
inductive Series (s : Suite) (site : Site) : World → World → Prop
  | nil (w : World) : Series s site w w
  | cons {w w' : World} (runner : Runner) : Spares runner site →
    (∀ printed, runner.Passes (firstStages s printed) w → Attempt runner s site w) →
    Series s site ((nativeImageCheck runner s).run.run w).2 w' → Series s site w w'

theorem taken_of_runs (hspares : Spares runner site) {cs : List Call} {u : World}
    (h : Runs runner w cs u) (ht : site.Taken w.disk) : site.Taken u.disk := by
  induction h with
  | nil hdisk _ _ => rwa [hdisk]
  | call i hdisk _ _ _ ih =>
    refine ih ?_
    rw [Runs.snd_run]
    exact hspares i _ (hdisk ▸ ht)

theorem taken_afterAll (hspares : Spares runner site) (is : List Invocation)
    (ht : site.Taken w.disk) : site.Taken (runner.afterAll is w).disk := by
  induction is generalizing w with
  | nil => exact ht
  | cons i is ih => exact ih (hspares i w ht)

/-- Where a GraalVM was moved to, the next one does not go. -/
theorem taken_of_moved {d d' : Disk} (h : d.Moved site.place site.newPlace d')
    (hfree : d.obstacle? site.newPlace = none) {l : Access}
    {e : Name × Node} {es : List (Name × Node)} (hd : d.get? site.place = some (.dir l (e :: es))) :
    site.Taken d' := by
  have harrived := h.arrived []
  rw [List.append_nil, List.append_nil, hd] at harrived
  have hw : d'.isWritable site.newPlace.dropLast = true := by
    have habove : ∀ x : Name, ¬ site.above ++ [x] <+: site.above := fun x hpre =>
      absurd hpre.length_le (by simp)
    rw [Site.newPlace, List.dropLast_concat, isWritable_congr
      (h.elsewhere site.above (habove site.name) (habove site.name.moved))]
    by_contra hnot
    rw [obstacle?, Site.newPlace, List.dropLast_concat, if_neg hnot] at hfree
    cases hfree
  rw [Site.Taken, obstacle?, if_pos hw, harrived]

/-- One check leaves a GraalVM that was moved before. -/
theorem taken_of_check (hspares : Spares runner site)
    (h : ∀ printed, runner.Passes (firstStages s printed) w → Attempt runner s site w)
    (ht : site.Taken w.disk) : site.Taken ((nativeImageCheck runner s).run.run w).2.disk := by
  rcases stops_or_passes runner s w with ⟨e, cs, u, hrun, hruns⟩ | ⟨printed, hpasses⟩
  · rw [hrun]
    exact taken_of_runs hspares hruns ht
  · -- the check comes as far as the move, and finds the earlier GraalVM in its way
    have hbefore : site.Taken (beforeMove runner s site.printed w).disk :=
      taken_afterAll hspares _ ht
    rw [run_nativeImageCheck_of_obstacle (h printed hpasses) hbefore]
    exact hbefore

/-- So do any number of checks. -/
theorem taken_of_series {w' : World} (h : Series s site w w') (ht : site.Taken w.disk) :
    site.Taken w'.disk := by
  induction h with
  | nil w => exact ht
  | cons runner hspares hattempt _ ih => exact ih (taken_of_check hspares hattempt ht)

/-- **The first check that moves a GraalVM is the last that can.**  A check whose programs all do as
expected moves the GraalVM to the place beside it if nothing stands there but an empty directory,
and succeeds if the launcher then starts from the new place.  If something else stands there, or
nothing can be moved in that directory, it fails and moves nothing.  The GraalVM that was moved is
itself such a thing: after it, any number of checks later, a check that comes to the move fails as
the place is not empty. -/
theorem nativeImageCheck_spec (s : Suite) (site : Site) :
    (∀ runner w, Attempt runner s site w →
      let v := beforeMove runner s site.printed w
      let ended := (nativeImageCheck runner s).run.run w
      (v.disk.obstacle? site.newPlace = none → ∃ disk, Relocates runner site v disk ended) ∧
      ∀ e, v.disk.obstacle? site.newPlace = some e →
        ended = (.error (.error (.io (.os e))), v)) ∧
    ∀ first w, Attempt first s site w → Spares first site →
      (beforeMove first s site.printed w).disk.obstacle? site.newPlace = none →
      ∀ w', Series s site ((nativeImageCheck first s).run.run w).2 w' →
      ∀ runner, Attempt runner s site w' → Spares runner site →
        (nativeImageCheck runner s).run.run w' =
          (.error (.error (.io (.os .notEmpty))), beforeMove runner s site.printed w') := by
  refine ⟨fun runner w h => ⟨exists_relocates_of_attempt h, fun e he =>
    run_nativeImageCheck_of_obstacle h he⟩, ?_⟩
  intro first w hfirst hspares hfree w' hseries runner hattempt hspares'
  -- the first check has moved its GraalVM
  obtain ⟨l, e, es, hstands⟩ := hfirst.stands
  obtain ⟨disk, hmoved, hworld, -⟩ := exists_relocates_of_attempt hfirst hfree
  have htaken : site.Taken ((nativeImageCheck first s).run.run w).2.disk := by
    rw [hworld]
    exact hspares _ _ (taken_of_moved hmoved hfree (locate_eq_ok_iff.mp hstands).2.2.1)
  exact run_nativeImageCheck_of_obstacle hattempt
    (taken_afterAll hspares' _ (taken_of_series hseries htaken))

end

/-! ### Small runs -/

/-- A GraalVM: a launcher, and nothing else. -/
def smallGraalVm : Node :=
  .dir .full [(⟨"bin", by decide⟩,
    .dir .full [(⟨"graalpython", isName_launcher⟩, .file ⟨ByteArray.empty, ⟨0⟩, true⟩)])]

theorem distinct_smallGraalVm : smallGraalVm.Distinct := by
  simp [smallGraalVm, Node.Distinct, Node.DistinctEntries]

/-- A GraalVM at `/h`. -/
def smallSite : Site :=
  .of ⟨"/"⟩ ⟨"h", by decide⟩ []

/-- A suite whose benchmark is to print a short text. -/
def smallSuite : Suite :=
  { config := { gate := { svmBenchmarkPattern := "image" } } }

/-- Everything that may be expected of a program. -/
def expectedOutput : ToolOutput :=
  ⟨some 0, "image\n/foobar\nUsing preinitialized context.\n/h\n", ""⟩

/-- Programs that print everything that may be expected of them; a build puts a GraalVM at `/h`. -/
def buildingTools : Runner := fun i w =>
  ⟨if "build" ∈ i.args then w.disk.put smallSite.place smallGraalVm distinct_smallGraalVm
    else w.disk,
    .ok expectedOutput, ByteArray.empty, ByteArray.empty, []⟩

/-- Programs that fail. -/
def failingTools : Runner := fun _ w =>
  ⟨w.disk, .ok (.failure 1), ByteArray.empty, ByteArray.empty, []⟩

/-- A world in which nothing was built. -/
def emptyWorld : World :=
  World.start (Disk.empty ⟨10⟩) [] ⟨"/tmp"⟩ ∅

theorem spares_buildingTools : Spares buildingTools smallSite := by
  intro i w ht
  have hapart : Apart smallSite.place smallSite.newPlace := apart_names (Name.ne_moved _)
  by_cases hbuild : "build" ∈ i.args
  · have hdisk : (buildingTools i w).disk =
        w.disk.put smallSite.place smallGraalVm distinct_smallGraalVm := if_pos hbuild
    -- the root, in which both stand, is as before
    have hroot : (w.disk.put ([] ++ [smallSite.name]) smallGraalVm distinct_smallGraalVm).kindAt
        smallSite.newPlace.dropLast = w.disk.kindAt smallSite.newPlace.dropLast := by
      rw [kindAt_put (dirAt_nil _), if_neg (by decide)]
    rw [Site.Taken, obstacle?, hdisk, get?_put_of_apart hapart]
    rw [Site.Taken, obstacle?, ← isWritable_congr hroot] at ht
    exact ht
  · have hdisk : (buildingTools i w).disk = w.disk := if_neg hbuild
    rwa [hdisk]

/-- Programs that all print everything that is expected do as expected. -/
theorem passes_of_answer {runner : Runner} {s : Suite} {home : String} {output : ToolOutput}
    (hanswer : ∀ i v, runner.answer i v = .ok output) (hline : output.lastLine? = some home)
    (hpattern : Text.contains output.combined s.config.gate.svmBenchmarkPattern = true)
    (hpatched : Text.contains output.combined patchedLibrary = true) (w : World) :
    runner.Passes (firstStages s home) w :=
  ⟨⟨_, hanswer _ _, trivial⟩, ⟨_, hanswer _ _, hline⟩, ⟨_, hanswer _ _, trivial⟩,
    ⟨_, hanswer _ _, hpattern⟩, ⟨_, hanswer _ _, hpatched⟩, ⟨_, hanswer _ _, hpatched⟩, trivial⟩

theorem answer_buildingTools (i : Invocation) (w : World) :
    buildingTools.answer i w = .ok expectedOutput := by
  rw [Runner.answer, buildingTools]
  rfl

theorem passes_buildingTools (w : World) :
    buildingTools.Passes (firstStages smallSuite smallSite.printed) w := by
  have hprinted : expectedOutput.lastLine? = some smallSite.printed ∧
      Text.contains expectedOutput.combined smallSuite.config.gate.svmBenchmarkPattern =
        true ∧
      Text.contains expectedOutput.combined patchedLibrary = true := by
    decide +kernel
  exact passes_of_answer answer_buildingTools hprinted.1 hprinted.2.1 hprinted.2.2 w

/-- A directory with entries stands where a look-up says so. -/
theorem exists_of_locate {d : Disk} {cwd place : List Name} {p : Path}
    (h : (d.locate cwd p false).map (fun r => (r.1, r.2.isDir, r.2.entries.isEmpty)) =
      .ok (place, true, false)) :
    ∃ l e es, d.locate cwd p false = .ok (place, .dir l (e :: es)) := by
  rcases hl : d.locate cwd p false with _ | ⟨q, n⟩
  · simp [hl, Except.map] at h
  · rw [hl] at h
    obtain ⟨rfl, hdir, hentries⟩ : q = place ∧ n.isDir = true ∧ n.entries.isEmpty = false := by
      simpa [Except.map] using h
    obtain ⟨l, es, rfl⟩ := Node.exists_eq_dir hdir
    cases es with
    | nil => cases hentries
    | cons e es => exact ⟨l, e, es, rfl⟩

/-- A first check moves its GraalVM and succeeds, and the build fails in the second one.  The third
check finds the GraalVM of the first in its way. -/
theorem nativeImageCheck_spec_small :
    let first := (nativeImageCheck buildingTools smallSuite).run.run emptyWorld
    let second := (nativeImageCheck failingTools smallSuite).run.run first.2
    let third := (nativeImageCheck buildingTools smallSuite).run.run second.2
    first.1 = .ok () ∧ third.1 = .error (.error (.io (.os .notEmpty))) := by
  intro first second third
  have hstands :
      let found (w : World) :=
        ((beforeMove buildingTools smallSuite smallSite.printed w).disk.locate
          (beforeMove buildingTools smallSuite smallSite.printed w).cwd smallSite.home false).map
          fun r => (r.1, r.2.isDir, r.2.entries.isEmpty)
      found emptyWorld = .ok (smallSite.place, true, false) ∧
        found second.2 = .ok (smallSite.place, true, false) := by
    decide +kernel
  have hattempt : Attempt buildingTools smallSuite smallSite emptyWorld :=
    ⟨passes_buildingTools _, exists_of_locate hstands.1⟩
  have hagain : Attempt buildingTools smallSuite smallSite second.2 :=
    ⟨passes_buildingTools _, exists_of_locate hstands.2⟩
  have hfree : (beforeMove buildingTools smallSuite smallSite.printed emptyWorld).disk.obstacle?
      smallSite.newPlace = none := by
    decide +kernel
  have hfails : ∀ printed, ¬ failingTools.Passes (firstStages smallSuite printed) first.2 := by
    rintro printed ⟨⟨output, hanswer, -⟩, -⟩
    cases hanswer
  have hseries : Series smallSuite smallSite first.2 second.2 :=
    .cons failingTools (fun _ _ ht => ht) (fun printed hpasses => absurd hpasses (hfails printed))
      (.nil _)
  have hspec := nativeImageCheck_spec smallSuite smallSite
  refine ⟨?_, ?_⟩
  · obtain ⟨disk, hrelocates⟩ := (hspec.1 buildingTools emptyWorld hattempt).1 hfree
    have hmark : Text.contains expectedOutput.combined preparedMark = true := by decide +kernel
    exact hrelocates.result.mpr ⟨expectedOutput, answer_buildingTools _ _, hmark⟩
  · exact congrArg Prod.fst (hspec.2 buildingTools emptyWorld hattempt spares_buildingTools hfree
      second.2 hseries buildingTools hagain spares_buildingTools)

/-- **A check cannot be repeated** although the same tools build the same GraalVM once more. -/
theorem nativeImageCheck_not_repeated :
    let first := (nativeImageCheck buildingTools smallSuite).run.run emptyWorld
    let second := (nativeImageCheck buildingTools smallSuite).run.run first.2
    first.1 = .ok () ∧ second.1 = .error (.error (.io (.os .notEmpty))) := by
  decide +kernel

end GraalVm

end SuiteGate
