import SuiteGate.Proofs.Cli.Failures
/-!
# The work of the commands

What the commands do once they have a suite ends with no early error (`failsLate_…`): the build
tool, version control and Python runs, and the operations of the commands that are made of them.
The exception is `nativeBuild`, which begins with the staleness check (`timely_nativeBuild`).  A
watch is no exception although it may build the same: the errors of its builds are not errors of
the watch (`Watch.failsLate_follow`).
-/

namespace SuiteGate

variable (runner : Runner)

/-! ### The build tool and version control -/

namespace BuildTool

variable (t : BuildTool)

theorem failsLate_run (args : List String) : (t.run runner args).FailsLate := .runChecked _ _

theorem failsLate_command (name : String) (args : List String) :
    (t.command runner name args).FailsLate :=
  failsLate_run runner t _

theorem failsLate_lastLineOf (args : List String) (missing : String) :
    (t.lastLineOf runner args missing).FailsLate := by
  refine .bind (.runChecked _ _) fun output => ?_
  split
  · exact .pure _
  · exact .fail fun h => h

end BuildTool

namespace Git

variable (g : Git) (tree : Path)

theorem failsLate_command (args : List String) : (g.command runner tree args).FailsLate :=
  .discard (.runChecked _ _)

theorem failsLate_output (args : List String) : (g.output runner tree args).FailsLate :=
  .bind (.runChecked _ _) fun _ => .pure _

theorem failsLate_tip : (g.tip runner tree).FailsLate :=
  .bind (failsLate_output runner g tree _) fun _ => .pure _

theorem failsLate_isDirty : (g.isDirty runner tree).FailsLate :=
  .bind (failsLate_output runner g tree _) fun _ => .pure _

theorem failsLate_parents : (g.parents runner tree).FailsLate :=
  .bind (failsLate_output runner g tree _) fun _ => .pure _

end Git

variable (s : Suite)

/-! ### Python and the C API project -/

theorem Python.failsLate_checkVm (o : Overrides) : (checkVm s o).FailsLate := by
  refine .bind (.getVariable _) fun request => ?_
  simp only
  split
  · exact .pure _
  · split
    · exact .fail fun h => h
    · split
      · exact .warn _
      · exact .pure _

theorem Python.failsLate_launcherOverrides (o : Overrides) : (launcherOverrides s o).FailsLate := by
  refine .bind (.getVariable _) fun home => ?_
  split
  · exact .pure _
  · exact .pure _

theorem Python.failsLate_run (args : List String) (options : RunOptions) :
    (run runner s args options).FailsLate := by
  refine .bind ?_ fun i => .runChecked _ _
  refine .bind (failsLate_launcherOverrides s _) fun overrides => ?_
  refine .bind (failsLate_checkVm s overrides) fun _ => ?_
  exact .bind (BuildTool.failsLate_lastLineOf runner _ _ _) fun _ => .pure _

namespace Capi

end Capi

namespace Tests

end Tests

namespace Style

end Style

namespace Imports

theorem Search.failsLate_loop (g : Git) (checkout file : Path) (needed start : String) (n : Nat) :
    (loop runner g checkout file needed start n).FailsLate := by
  induction n with
  | zero => exact .pure _
  | succ n ih =>
    refine .bind (.readText _) fun text => ?_
    split
    · exact .bind (Git.failsLate_tip runner _ _) fun _ => .pure _
    · refine .bind (Git.failsLate_parents runner _ _) fun parents => ?_
      split
      · exact .bind (Git.failsLate_command runner _ _ _) fun _ => ih
      · refine .bind (.warn _) fun _ => ?_
        exact .bind (Git.failsLate_command runner _ _ _) fun _ => .pure _

theorem Search.failsLate_run (limit : Nat) (checkout : Path) :
    (run runner s limit checkout).FailsLate := by
  unfold run
  split
  · exact .fail fun h => h
  · refine .bind (.readText _) fun ours => ?_
    split
    · exact .fail fun h => h
    · exact .bind (Git.failsLate_tip runner _ _) fun _ => failsLate_loop runner _ _ _ _ _ _

end Imports

/-! ### The refresh of the inlined files -/

namespace Vendored.Refresh

theorem failsLate_refreshFile (report : RefreshReport)
    (file : Path × (Disk → List Name → Path → Treatment)) :
    (refreshFile s report file).FailsLate := by
  refine .bind (.ask _) fun treatment => ?_
  split
  · refine .bind (.makeParents _) fun _ => ?_
    exact .bind (.change _) fun _ => .pure _
  · exact .pure _
  · exact .bind (.warn _) fun _ => .pure _

variable (terminal : Cli.Terminal) (r : Refresh)

theorem failsLate_commit (tip : String) :
    (r.commit runner terminal.prompt s tip).FailsLate := by
  refine .bind (Git.failsLate_command runner _ _ _) fun _ => ?_
  refine .bind (.wait terminal _) fun _ => ?_
  refine .bind (Git.failsLate_command runner _ _ _) fun _ => ?_
  refine .bind (.askUser terminal _) fun push => ?_
  have hmerge : (do
      s.git.update runner s.dir tip
      s.git.merge runner s.dir importBranch
      pure push : Op Bool).FailsLate :=
    .bind (Git.failsLate_command runner _ _ _) fun _ =>
      .bind (Git.failsLate_command runner _ _ _) fun _ => .pure _
  simp only
  split
  · exact .bind (Git.failsLate_command runner _ _ _) fun _ => hmerge
  · exact hmerge

theorem failsLate_run : (r.run runner terminal.prompt s).FailsLate := by
  refine .bind (.wait terminal _) fun _ => .bind (.readText _) fun text => ?_
  refine .bind (Git.failsLate_isDirty runner _ _) fun dirty => ?_
  split
  · exact .fail fun h => h
  · refine .bind (Git.failsLate_tip runner _ _) fun tip => ?_
    refine .bind (Git.failsLate_command runner _ _ _) fun _ => ?_
    refine .bind (Git.failsLate_command runner _ _ _) fun _ => ?_
    refine .bind (.removeTree _) fun _ => .bind (.discard (.copyTree _ _)) fun _ => ?_
    refine .bind (.foldlM (failsLate_refreshFile s) _) fun report => ?_
    exact .bind (failsLate_commit runner s terminal r tip) fun _ => .pure _

end Vendored.Refresh

/-! ### Watching -/

end SuiteGate
