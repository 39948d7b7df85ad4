import SuiteGate.GraalVm.Checks
import SuiteGate.Proofs.Disk.Removals
import SuiteGate.Proofs.Disk.Texts
import SuiteGate.Proofs.Native.Rebuild
import SuiteGate.Proofs.Python.Launches
/-!
# Scratch artifacts

Two operations leave things on the disk only while they last.  A build of the C API project runs the
setup script in a directory that is removed behind it (`Capi.run_runSetup`), and the check of the
shared library removes the program that it compiles and the source of it
(`GraalVm.run_sharedLibraryCheck`).  However the tools in between end, nothing is left, and the
result is that of the tool that failed.

There are two exceptions, and in both the error of the removal takes the place of that of the tool
(`build_hides_failure_small`).  A tool can put something in the way to the scratch directory, and it
can leave a directory there that cannot be listed or changed (`Disk.Kept`), which stays.  In the
same way a file stays if a tool takes the write permission of its directory.  The headline is
`scratch_removed`.
-/

namespace SuiteGate

open Disk

namespace Capi

/-! ### The scratch directory of the setup script -/

/-- **Behind a run of the setup script** its directory is removed.  The run ends with the error of
the removal, if there is one, and else like the script. -/
theorem run_runSetup {runner : Runner} {s : Suite} {w u : World} {r : Except Error ToolOutput}
    (h : (Python.run runner s (setupArgs s) (setupOptions s)).run.run w =
      (r.mapError .error, u)) :
    (runSetup runner s).run.run w =
      (match (u.disk.removeTree u.cwd (scratchDir s)).1 with
        | .error e => .error (.error (.io e))
        | .ok () => (r.map fun _ => ()).mapError .error,
        { u with disk := (u.disk.removeTree u.cwd (scratchDir s)).2 }) := by
  rw [setupOptions] at h
  rw [runSetup, Op.run_bind, Op.run_attempt_of_run h]
  simp only [Op.removeTree, Op.run_bind, Op.run_changePartly]
  cases (u.disk.removeTree u.cwd (scratchDir s)).1 <;> cases r <;> rfl

theorem scratchDir_eq (s : Suite) : scratchDir s = s.config.capiHome.child scratchName.text := rfl

/-- What a build leaves of its scratch directory, and how it ends: like the step that failed, or
with the error that kept the directory from being removed.  What is left of a directory that was
kept stood there before. -/
structure ScratchRemoved (runner : Runner) (s : Suite) (w : World) (r : Except Error ToolOutput)
    (u : World) (after : Except Fault Unit × World) : Prop where
  /-- How the run of the setup script ended. -/
  ends : Python.Ends runner s (setupArgs s) (setupOptions s) w r u
  gone : ¬ u.disk.Kept u.cwd (scratchDir s) →
    ∀ n, after.2.disk.lstat after.2.cwd (scratchDir s) ≠ .ok n
  result : ¬ u.disk.Kept u.cwd (scratchDir s) → (∀ e, ¬ u.disk.Blocks u.cwd (scratchDir s) e) →
    after.1 = (r.map fun _ => ()).mapError .error
  blocked : ∀ e, u.disk.Blocks u.cwd (scratchDir s) e → after.1 = .error (.error (.io e))
  kept : u.disk.Kept u.cwd (scratchDir s) →
    after.1 = .error (.error (.io (.os .permissionDenied))) ∧ after.2.disk.Within u.disk

theorem scratchRemoved_of_prepare {runner : Runner} {s : Suite} {w w₁ u : World}
    {r : Except Error ToolOutput} (hprepare : (prepare s).run.run w = (.ok (), w₁))
    (hends : Python.Ends runner s (setupArgs s) (setupOptions s) w₁ r u)
    (hrun : (Python.run runner s (setupArgs s) (setupOptions s)).run.run w₁ =
      (r.mapError .error, u))
    (hfile : ∀ n, u.disk.lstat u.cwd (scratchDir s) = .ok n → n.isFile = false) :
    ScratchRemoved runner s w₁ r u ((build runner s).run.run w) := by
  have hbuild : (build runner s).run.run w = (runSetup runner s).run.run w₁ := by
    rw [build_eq, Op.run_bind, hprepare]
  have hspec := removeTree_child_spec (scratchDir_eq s ▸ hfile)
  have hdenied := removeTree_child_of_kept (scratchDir_eq s ▸ hfile)
  rw [← scratchDir_eq] at hspec hdenied
  have hwithin := removeTree_within u.disk u.cwd (scratchDir s)
  rw [hbuild, run_runSetup hrun]
  generalize u.disk.removeTree u.cwd (scratchDir s) = removed at hspec hdenied hwithin ⊢
  refine ⟨hends, fun hkept => (hspec hkept).1, fun hkept hclear => ?_, fun e hblocked => ?_,
    fun hkept => ⟨?_, hwithin⟩⟩
  · rcases hr : removed.1 with e | ⟨⟩
    · exact absurd (((hspec hkept).2 e).mp hr) (hclear e)
    · rfl
  · -- where the way is blocked nothing is found that could be kept
    have hkept : ¬ u.disk.Kept u.cwd (scratchDir s) := fun ⟨place, n, hl, _⟩ =>
      not_blocks_of_lstat (lstat_eq_ok_iff.mpr ⟨place, hl⟩) hblocked
    rw [((hspec hkept).2 e).mpr hblocked]
  · rw [hdenied hkept]

end Capi

namespace GraalVm

/-! ### The source and the program of the check of the shared library -/

/-- How compiling and running the program ends: like the compiler if that fails, and otherwise like
the program. -/
def compiledAnswer (runner : Runner) (compile run : Invocation) (w : World) :
    Except Error ToolOutput × World :=
  match runner.answer compile w with
  | .error e => (.error e, runner.after compile w)
  | .ok _ => (runner.answer run (runner.after compile w), runner.after run (runner.after compile w))

theorem run_compileAndRun (runner : Runner) (s : Suite) (library source program : Path)
    (w : World) :
    let ended := compiledAnswer runner (compileInvocation library source program)
      (embeddedInvocation s library program) w
    (compileAndRun runner s library source program).run.run w =
      ((ended.1.map fun _ => ()).mapError .error, ended.2) := by
  intro ended
  rw [compileAndRun, Op.run_bind, Op.run_discard, Runner.run_runChecked]
  simp only [ended, compiledAnswer]
  cases runner.answer (compileInvocation library source program) w with
  | error e => rfl
  | ok output =>
    simp only [Except.mapError, Op.run_discard, Runner.run_runChecked]
    cases runner.answer (embeddedInvocation s library program)
      (runner.after (compileInvocation library source program) w) <;> rfl

/-- Removing the program never fails; at most it logs a warning. -/
theorem run_removeProgram (program : Path) (w : World) :
    ∃ ws, (removeProgram program).run.run w =
      (.ok (), { w with disk := w.disk.withoutFile w.cwd program, warnings := ws }) := by
  rw [removeProgram, Op.run_bind, Op.run_attempt, Op.change, Op.run_bind, Op.run_query, withoutFile]
  cases w.disk.removeFile w.cwd program with
  | ok d => exact ⟨w.warnings, rfl⟩
  | error e =>
    simp only [Except.mapError]
    cases e.isNotFound with
    | true => exact ⟨w.warnings, rfl⟩
    | false => exact ⟨_, rfl⟩

/-- Looking for a path for a temporary file changes nothing. -/
theorem snd_run_freshPath (stem ending : String) (w : World) :
    ((Op.freshPath stem ending).run.run w).2 = w := by
  have hget : (get : Op World).run.run w = (.ok w, w) := rfl
  rw [Op.freshPath, Op.run_bind, hget]
  simp only
  split <;> rfl

theorem run_tryChange_removeFile (p : Path) (w : World) :
    (Op.tryChange fun d cwd => d.removeFile cwd p).run.run w =
      (.ok (), { w with disk := w.disk.withoutFile w.cwd p }) := by
  rw [Op.tryChange, Op.run_modify, withoutFile]
  cases w.disk.removeFile w.cwd p <;> rfl

section

variable {runner : Runner} {s : Suite} {sandboxed : Bool} {w w₁ w₂ : World}
  {launcher home source : Path}

/-- **Behind the check of the shared library** the program and its source are removed, and it ends
like the compiler and the program. -/
theorem run_sharedLibraryCheck
    (hlauncher : (Launcher.build runner s .sharedLibrary sandboxed).run.run w = (.ok launcher, w₁))
    (hhome : (homeOf launcher).run.run w₁ = (.ok home, w₁))
    (hfresh : (Op.freshPath "embedded-polyglot" ".c").run.run w₁ = (.ok source, w₁))
    (hwrite : (Op.writeText source (embeddedSource sandboxed)).run.run w₁ = (.ok (), w₂)) :
    let ended := compiledAnswer runner
      (compileInvocation (libraryDir home) source (embeddedProgram s))
      (embeddedInvocation s (libraryDir home) (embeddedProgram s)) w₂
    ∃ ws, (sharedLibraryCheck runner s sandboxed).run.run w =
      ((ended.1.map fun _ => ()).mapError .error,
        { ended.2 with
          disk := (ended.2.disk.withoutFile ended.2.cwd (embeddedProgram s)).withoutFile
            ended.2.cwd source
          warnings := ws }) := by
  intro ended
  have hbody := run_compileAndRun runner s (libraryDir home) source (embeddedProgram s) w₂
  obtain ⟨ws, hremove⟩ := run_removeProgram (embeddedProgram s) ended.2
  refine ⟨ws, ?_⟩
  -- up to the tools, then the removal of the program, then that of the source
  rw [sharedLibraryCheck, Op.run_bind, hlauncher]
  simp only
  rw [Op.run_bind, hhome]
  simp only
  rw [Op.withTempFile, Op.run_bind, hfresh]
  simp only
  rw [Op.run_bind, hwrite]
  simp only
  rw [Op.run_thenAlways, Op.run_bind, Op.run_attempt_of_run hbody]
  simp only
  rw [Op.run_bind, hremove]
  simp only [Op.run_ofExcept, run_tryChange_removeFile]
  rfl

end

/-- What the check of the shared library leaves of the source and the program, at most a directory
or what is in a directory that is not writable, and how it ends: the program is only started if it
could be compiled. -/
structure ProgramRemoved (runner : Runner) (s : Suite) (compile run : Invocation) (source : Path)
    (w : World) (after : Except Fault Unit × World) : Prop where
  source : ∀ place n, after.2.disk.locate after.2.cwd source false = .ok (place, n) →
    n.isDir = true ∨ after.2.disk.isWritable place.dropLast = false
  program : ∀ place n,
    after.2.disk.locate after.2.cwd (embeddedProgram s) false = .ok (place, n) →
      n.isDir = true ∨ after.2.disk.isWritable place.dropLast = false
  notCompiled : ∀ e, runner.answer compile w = .error e →
    after.1 = .error (.error e) ∧ after.2.calls = w.calls ++ [w.record compile]
  compiled : ∀ output, runner.answer compile w = .ok output →
    after.1 = ((runner.answer run (runner.after compile w)).map fun _ => ()).mapError .error ∧
      after.2.calls = w.calls ++ [w.record compile, (runner.after compile w).record run]

theorem hasTrailingSlash_of_writeText {p : Path} {text : String} {w w' : World}
    (h : (Op.writeText p text).run.run w = (.ok (), w')) : p.hasTrailingSlash = false := by
  rw [Op.run_writeText] at h
  cases hw : w.disk.writeFile w.cwd p text.toUTF8 with
  | error e =>
    rw [hw] at h
    cases h
  | ok d =>
    obtain ⟨place, executable, ho, -⟩ := exists_of_writeFile hw
    exact (exists_writable_of_openForWriting ho).1

theorem hasTrailingSlash_embeddedProgram (s : Suite) :
    (embeddedProgram s).hasTrailingSlash = false :=
  Path.hasTrailingSlash_child s.dir ⟨"graalpython-embedded-tool", by decide⟩

theorem programRemoved_of_writeText {runner : Runner} {s : Suite} {sandboxed : Bool}
    {w w₁ w₂ : World} {launcher home source : Path}
    (hlauncher : (Launcher.build runner s .sharedLibrary sandboxed).run.run w = (.ok launcher, w₁))
    (hhome : (homeOf launcher).run.run w₁ = (.ok home, w₁))
    (hfresh : (Op.freshPath "embedded-polyglot" ".c").run.run w₁ = (.ok source, w₁))
    (hwrite : (Op.writeText source (embeddedSource sandboxed)).run.run w₁ = (.ok (), w₂)) :
    ProgramRemoved runner s (compileInvocation (libraryDir home) source (embeddedProgram s))
      (embeddedInvocation s (libraryDir home) (embeddedProgram s)) source w₂
      ((sharedLibraryCheck runner s sandboxed).run.run w) := by
  obtain ⟨ws, hrun⟩ := run_sharedLibraryCheck hlauncher hhome hfresh hwrite
  rw [hrun]
  refine ⟨fun place n hn => ?_, fun place n hn => ?_, fun e he => ?_, fun output hok => ?_⟩
  · exact isDir_of_locate_withoutFile (hasTrailingSlash_of_writeText hwrite) hn
  · -- the program is removed before the source
    exact isDir_of_locate_within (withoutFile_within _ _ _)
      (fun _ _ => isDir_of_locate_withoutFile (hasTrailingSlash_embeddedProgram s)) hn
  · rw [compiledAnswer, he]
    exact ⟨rfl, rfl⟩
  · rw [compiledAnswer, hok]
    exact ⟨rfl, List.append_assoc ..⟩

end GraalVm

/-! ### Both operations -/

/-- **Scratch artifacts are removed** however the tools end.  After a build of the C API project
that came to its setup script there is no scratch directory, unless a tool put a file in its place
or left a directory there that cannot be listed or changed; after a check of the shared library that
came to its source there is neither the source nor the program, unless their directories are not
writable.  Both end like the tool that failed, but for a build whose scratch directory cannot be
reached or cannot be removed. -/
theorem scratch_removed (runner : Runner) (s : Suite) :
    (∀ w w₁, (Capi.prepare s).run.run w = (.ok (), w₁) → ∃ r u,
      (Python.run runner s (Capi.setupArgs s) (Capi.setupOptions s)).run.run w₁ =
        (r.mapError .error, u) ∧
      ((∀ n, u.disk.lstat u.cwd (Capi.scratchDir s) = .ok n → n.isFile = false) →
        Capi.ScratchRemoved runner s w₁ r u ((Capi.build runner s).run.run w))) ∧
    ∀ sandboxed w w₁ w₂ launcher home source,
      (GraalVm.Launcher.build runner s .sharedLibrary sandboxed).run.run w = (.ok launcher, w₁) →
      (GraalVm.homeOf launcher).run.run w₁ = (.ok home, w₁) →
      (Op.freshPath "embedded-polyglot" ".c").run.run w₁ = (.ok source, w₁) →
      (Op.writeText source (GraalVm.embeddedSource sandboxed)).run.run w₁ = (.ok (), w₂) →
      GraalVm.ProgramRemoved runner s
        (GraalVm.compileInvocation (GraalVm.libraryDir home) source (GraalVm.embeddedProgram s))
        (GraalVm.embeddedInvocation s (GraalVm.libraryDir home) (GraalVm.embeddedProgram s)) source
        w₂ ((GraalVm.sharedLibraryCheck runner s sandboxed).run.run w) := by
  refine ⟨fun w w₁ hprepare => ?_, ?_⟩
  · obtain ⟨r, u, hends, hrun⟩ :=
      Python.exists_ends_run runner s (Capi.setupArgs s) (Capi.setupOptions s) w₁
    exact ⟨r, u, hrun, Capi.scratchRemoved_of_prepare hprepare hends hrun⟩
  · intro sandboxed w w₁ w₂ launcher home source hlauncher hhome hfresh hwrite
    exact GraalVm.programRemoved_of_writeText hlauncher hhome hfresh hwrite

/-! ### Small runs -/

/-- A setup script that changes the disk and fails. -/
def failingScript (change : Disk → Disk) : Runner := fun i w =>
  if i.program = "mx" then
    ⟨w.disk, .ok ⟨some 0, "cp\n", ""⟩, ByteArray.empty, ByteArray.empty, []⟩
  else
    ⟨change w.disk, .ok ⟨some 1, "", ""⟩, ByteArray.empty, ByteArray.empty, []⟩

/-- What a setup script writes. -/
def writeOutput (d : Disk) : Disk :=
  d.plant [] [Capi.newOutput]

/-- A file takes the place of the output directory. -/
def replaceOutputs (d : Disk) : Disk :=
  d.plant [] [⟨⟨"o"⟩, .nothing⟩, ⟨⟨"o"⟩, .file ByteArray.empty false none⟩]

/-- A directory that has an entry and is not writable. -/
def lockedDir : Node :=
  .dir ⟨true, false⟩ [(⟨"part", by decide⟩, .file ⟨ByteArray.empty, ⟨0⟩, false⟩)]

theorem distinct_lockedDir : lockedDir.Distinct := by
  simp [lockedDir, Node.Distinct, Node.DistinctEntries]

theorem isName_outputs :
    ("o" != "" && "o" != "." && "o" != ".." && !"o".toList.contains '/') = true := by
  decide

/-- Such a directory is left in the scratch directory. -/
def lockScratch (d : Disk) : Disk :=
  d.put [⟨"o", isName_outputs⟩, Capi.scratchName, ⟨"locked", by decide⟩] lockedDir
    distinct_lockedDir

/-- The command that runs the setup script. -/
def scriptCommand : String :=
  "java -cp cp -ea -esa com.oracle.graal.python.shell.GraalPythonMain " ++
    "--experimental-options=true --python.CAPI=/o -S /s/setup.py /o"

/-- Programs that all print the home of a GraalVM; the compiler writes the program, which fails. -/
def compilerTools : Runner := fun i w =>
  ⟨if i.program = "clang" then
      w.disk.plant [] [⟨⟨"graalpython-embedded-tool"⟩, .file ByteArray.empty true none⟩]
    else w.disk,
    .ok ⟨some (if i.program = "/graalpython-embedded-tool" then 1 else 0), "/g\n", ""⟩,
    ByteArray.empty, ByteArray.empty, []⟩

/-- A world with a directory for temporary files. -/
def compilerWorld : World :=
  World.start ((Disk.empty ⟨10⟩).plant [] [⟨⟨"tmp"⟩, .dir⟩]) [] ⟨"/tmp"⟩ ∅

/-- The setup script of a build is started and fails, and its directory stands and can be
removed. -/
theorem script_small :
    let s := Capi.smallSuite ⟨"h"⟩ ⟨"o"⟩
    ∃ w₁ u n, (Capi.prepare s).run.run Capi.smallWorld = (.ok (), w₁) ∧
      (Python.run (failingScript writeOutput) s (Capi.setupArgs s)
        (Capi.setupOptions s)).run.run w₁ =
          (.error (.error (.tool (.nonZeroExit scriptCommand (some 1) ""))), u) ∧
      u.disk.lstat u.cwd (Capi.scratchDir s) = .ok n ∧ n.isFile = false ∧
      ¬ u.disk.Kept u.cwd (Capi.scratchDir s) := by
  intro s
  have hruns :
      let prepared := (Capi.prepare s).run.run Capi.smallWorld
      let script := (Python.run (failingScript writeOutput) s (Capi.setupArgs s)
        (Capi.setupOptions s)).run.run prepared.2
      prepared.1 = .ok () ∧
        script.1 = .error (.error (.tool (.nonZeroExit scriptCommand (some 1) ""))) ∧
        (script.2.disk.locate script.2.cwd (Capi.scratchDir s) false).map (fun r =>
          (r.2.isFile, r.2.strip.1 && script.2.disk.isWritable r.1.dropLast)) =
            .ok (false, true) := by
    decide +kernel
  obtain ⟨hprepared, hscript, hstands⟩ := hruns
  generalize hw₁ : ((Capi.prepare s).run.run Capi.smallWorld).2 = w₁ at hscript hstands
  generalize hu : ((Python.run (failingScript writeOutput) s (Capi.setupArgs s)
    (Capi.setupOptions s)).run.run w₁).2 = u at hstands
  rcases hl : u.disk.locate u.cwd (Capi.scratchDir s) false with e | ⟨place, n⟩
  · rw [hl] at hstands
    cases hstands
  · rw [hl] at hstands
    obtain ⟨hfile, hgoes⟩ := Prod.mk.inj (Except.ok.inj hstands)
    refine ⟨w₁, u, n, Prod.ext hprepared hw₁, Prod.ext hscript hu,
      lstat_eq_ok_iff.mpr ⟨place, hl⟩, hfile, ?_⟩
    rw [kept_iff_of_locate hl, Bool.not_eq_false]
    exact hgoes

/-- The source of the check of the shared library is written and compiled, and the program
fails. -/
theorem compiled_small :
    let s := Capi.smallSuite ⟨"h"⟩ ⟨"o"⟩
    let source : Path := ⟨"/tmp/embedded-polyglot000000.c"⟩
    let compile := GraalVm.compileInvocation (GraalVm.libraryDir ⟨"/g"⟩) source
      (GraalVm.embeddedProgram s)
    let run := GraalVm.embeddedInvocation s (GraalVm.libraryDir ⟨"/g"⟩) (GraalVm.embeddedProgram s)
    ∃ w₁ w₂, (GraalVm.Launcher.build compilerTools s .sharedLibrary false).run.run compilerWorld =
        (.ok ⟨"/g/bin/graalpython"⟩, w₁) ∧
      (Op.freshPath "embedded-polyglot" ".c").run.run w₁ = (.ok source, w₁) ∧
      (Op.writeText source (GraalVm.embeddedSource false)).run.run w₁ = (.ok (), w₂) ∧
      compilerTools.answer compile w₂ = .ok ⟨some 0, "/g\n", ""⟩ ∧
      compilerTools.answer run (compilerTools.after compile w₂) =
        .error (.tool (.nonZeroExit "/graalpython-embedded-tool" (some 1) "")) := by
  intro s source compile run
  have hruns :
      let launched := (GraalVm.Launcher.build compilerTools s .sharedLibrary false).run.run
        compilerWorld
      let written := (Op.writeText source (GraalVm.embeddedSource false)).run.run launched.2
      launched.1 = .ok ⟨"/g/bin/graalpython"⟩ ∧
        ((Op.freshPath "embedded-polyglot" ".c").run.run launched.2).1 = .ok source ∧
        written.1 = .ok () ∧ compilerTools.answer compile written.2 = .ok ⟨some 0, "/g\n", ""⟩ ∧
        compilerTools.answer run (compilerTools.after compile written.2) =
          .error (.tool (.nonZeroExit "/graalpython-embedded-tool" (some 1) "")) := by
    decide +kernel
  obtain ⟨hlaunched, hfresh, hwritten, hcompiled, hfails⟩ := hruns
  generalize hw₁ : ((GraalVm.Launcher.build compilerTools s .sharedLibrary false).run.run
    compilerWorld).2 = w₁ at hfresh hwritten hcompiled hfails
  exact ⟨w₁, _, Prod.ext hlaunched hw₁, Prod.ext hfresh (GraalVm.snd_run_freshPath _ _ w₁),
    Prod.ext hwritten rfl, hcompiled, hfails⟩

/-- The setup script fails, and so does the program that the compiler wrote: the scratch directory
and the program are gone, and the errors are those of the script and of the program. -/
theorem scratch_removed_small :
    let s := Capi.smallSuite ⟨"h"⟩ ⟨"o"⟩
    let built := (Capi.build (failingScript writeOutput) s).run.run Capi.smallWorld
    let checked := (GraalVm.sharedLibraryCheck compilerTools s false).run.run compilerWorld
    (built.1 = .error (.error (.tool (.nonZeroExit scriptCommand (some 1) ""))) ∧
      ∀ n, built.2.disk.lstat built.2.cwd (Capi.scratchDir s) ≠ .ok n) ∧
    checked.1 = .error (.error (.tool (.nonZeroExit "/graalpython-embedded-tool" (some 1) ""))) ∧
      (∀ place n,
        checked.2.disk.locate checked.2.cwd (GraalVm.embeddedProgram s) false = .ok (place, n) →
          n.isDir = true ∨ checked.2.disk.isWritable place.dropLast = false) ∧
      checked.2.disk.pathExists checked.2.cwd (GraalVm.embeddedProgram s) = false := by
  intro s built checked
  refine ⟨?_, ?_⟩
  · obtain ⟨w₁, u, n, hprepare, hscript, hn, hfile, hkept⟩ := script_small
    obtain ⟨r, u', hrun, hremoved⟩ :=
      (scratch_removed (failingScript writeOutput) s).1 Capi.smallWorld w₁ hprepare
    obtain ⟨hr, rfl⟩ := Prod.mk.inj (hscript.symm.trans hrun)
    have hdone : Capi.ScratchRemoved (failingScript writeOutput) s w₁ r u built :=
      hremoved fun m hm => by
        rw [hn] at hm
        exact Except.ok.inj hm ▸ hfile
    refine ⟨?_, hdone.gone hkept⟩
    rw [hdone.result hkept fun e => not_blocks_of_lstat hn]
    cases r with
    | error e =>
      cases hr
      rfl
    | ok output => cases hr
  · obtain ⟨w₁, w₂, hlaunched, hfresh, hwritten, hcompiled, hfails⟩ := compiled_small
    have hhome : (GraalVm.homeOf ⟨"/g/bin/graalpython"⟩).run.run w₁ = (.ok ⟨"/g"⟩, w₁) := by
      have hparents : (⟨"/g/bin/graalpython"⟩ : Path).parent?.bind Path.parent? = some ⟨"/g"⟩ := by
        decide +kernel
      rw [GraalVm.homeOf, hparents]
      rfl
    have hdone : GraalVm.ProgramRemoved compilerTools s _ _ _ w₂ checked :=
      (scratch_removed compilerTools s).2 false compilerWorld w₁ w₂ _ ⟨"/g"⟩ _ hlaunched hhome
        hfresh hwritten
    refine ⟨?_, hdone.program, by decide +kernel⟩
    rw [(hdone.compiled _ hcompiled).1, hfails]
    rfl

/-- **A tool can hide its failure.**  The setup script puts a file in place of the output directory
and fails.  The scratch directory is gone with the output directory, but what the build ends with is
the error of its removal.  And if the script leaves a directory in the scratch directory that is not
writable, the build ends with the error of its removal, too, and the scratch directory stays. -/
theorem build_hides_failure_small :
    let s := Capi.smallSuite ⟨"h"⟩ ⟨"o"⟩
    let prepared := (Capi.prepare s).run.run Capi.smallWorld
    let script (change : Disk → Disk) := (Python.run (failingScript change) s (Capi.setupArgs s)
      (Capi.setupOptions s)).run.run prepared.2
    let built (change : Disk → Disk) :=
      (Capi.build (failingScript change) s).run.run Capi.smallWorld
    let failure : Fault := .error (.tool (.nonZeroExit scriptCommand (some 1) ""))
    prepared.1 = .ok () ∧
      ((script replaceOutputs).1 = .error failure ∧
        ((script replaceOutputs).2.disk.lstat (script replaceOutputs).2.cwd
          (Capi.scratchDir s)).isOk = false ∧
        (built replaceOutputs).1 = .error (.error (.io (.os .notDirectory)))) ∧
      (script lockScratch).1 = .error failure ∧
        (built lockScratch).1 = .error (.error (.io (.os .permissionDenied))) ∧
        (built lockScratch).2.disk.isDir (built lockScratch).2.cwd (Capi.scratchDir s) = true := by
  decide +kernel

end SuiteGate
