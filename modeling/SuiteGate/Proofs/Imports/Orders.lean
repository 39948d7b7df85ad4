import SuiteGate.Proofs.Environment.Tools
import SuiteGate.Proofs.Imports.DefaultUpdate
import SuiteGate.Proofs.Imports.Stages
/-!
# The order of an update

What an update does and in which order depends on the names that it is asked for, not on how often
or in which order they are given (`expand_congr`).  An update that succeeds has completed the stages
of its request one after the other (`Completed`): each has done its work in the world that the one
before left, and its programs are on record behind those of the one before (`Op.Invokes`).  The
headline is `updateImports_order`.
-/

namespace SuiteGate

/-! ### The programs of an operation -/

/-- The programs that were run up to a world. -/
def World.invocations (w : World) : List Invocation :=
  w.calls.map Call.invocation

@[simp]
theorem Runner.invocations_after (runner : Runner) (i : Invocation) (w : World) :
    (runner.after i w).invocations = w.invocations ++ [i] := by
  simp [World.invocations, Runner.after, World.record]

namespace Op

/-- If the operation ends with a result, it has run such programs. -/
def Invokes {α : Type} (op : Op α) (P : List Invocation → Prop) : Prop :=
  ∀ w a w', op.run.run w = (.ok a, w') →
    ∃ is, P is ∧ w'.invocations = w.invocations ++ is

namespace Invokes

variable {α β : Type} {P Q R : List Invocation → Prop}

/-- **One operation after another** runs the programs of both. -/
theorem bind {op : Op α} {f : α → Op β} (h : op.Invokes P) (hf : ∀ a, (f a).Invokes Q)
    (hR : ∀ is js, P is → Q js → R (is ++ js)) : (op >>= f).Invokes R := by
  intro w b w' hrun
  obtain ⟨a, v, hop, hnext⟩ := exists_of_run_bind hrun
  obtain ⟨is, his, hfirst⟩ := h w a v hop
  obtain ⟨js, hjs, hrest⟩ := hf a v b w' hnext
  exact ⟨is ++ js, hR is js his hjs, by rw [hrest, hfirst, List.append_assoc]⟩

theorem bind_eq {op : Op α} {f : α → Op β} {is js : List Invocation}
    (h : op.Invokes fun ks => ks = is) (hf : ∀ a, (f a).Invokes fun ks => ks = js) :
    (op >>= f).Invokes fun ks => ks = is ++ js :=
  h.bind hf fun _ _ his hjs => his ▸ hjs ▸ rfl

/-- An operation that always leaves the world behind that a program leaves runs this program. -/
theorem after {op : Op α} {runner : Runner} {i : Invocation}
    (h : ∀ w, (op.run.run w).2 = runner.after i w) : op.Invokes fun is => is = [i] := by
  intro w a w' hrun
  have hafter := h w
  rw [hrun] at hafter
  exact ⟨[i], rfl, by rw [show w' = _ from hafter, Runner.invocations_after]⟩

theorem imp {op : Op α} (h : op.Invokes P) (himp : ∀ is, P is → Q is) : op.Invokes Q := by
  intro w a w' hrun
  obtain ⟨is, his, hcalls⟩ := h w a w' hrun
  exact ⟨is, himp is his, hcalls⟩

theorem fail (e : Error) : (Op.fail e : Op α).Invokes P :=
  fun _ _ _ hrun => nomatch congrArg Prod.fst hrun

end Invokes

/-- An operation that runs no tool. -/
theorem RunsNone.invokes {α : Type} {op : Op α} (h : op.RunsNone) :
    op.Invokes fun is => is = [] := by
  intro w a w' hrun
  have hcalls := (h w).1
  rw [hrun] at hcalls
  exact ⟨[], rfl, by rw [World.invocations, hcalls, List.append_nil, World.invocations]⟩

theorem Invokes.discard {α : Type} {op : Op α} {P : List Invocation → Prop} (h : op.Invokes P) :
    (Functor.discard op).Invokes P :=
  h.bind (f := fun _ => pure PUnit.unit) (fun _ => (RunsNone.pure _).invokes)
    fun is js his hjs => by rwa [hjs, List.append_nil]

/-- If the operation ends with a result, it has run no programs but such. -/
def InvokesOnly {α : Type} (op : Op α) (p : Invocation → Prop) : Prop :=
  op.Invokes fun is => ∀ i ∈ is, p i

namespace InvokesOnly

variable {α β : Type} {p : Invocation → Prop}

theorem of_eq {op : Op α} {is : List Invocation} (h : op.Invokes fun js => js = is)
    (his : ∀ i ∈ is, p i) : op.InvokesOnly p :=
  h.imp fun _ hjs => hjs ▸ his

theorem bind {op : Op α} {f : α → Op β} (h : op.InvokesOnly p)
    (hf : ∀ a, (f a).InvokesOnly p) : (op >>= f).InvokesOnly p :=
  Invokes.bind h hf fun _ _ his hjs => List.forall_mem_append.mpr ⟨his, hjs⟩

theorem of_runsNone {op : Op α} (h : op.RunsNone) : op.InvokesOnly p :=
  of_eq h.invokes (by simp)

theorem forM {xs : List α} {f : α → Op PUnit} (hf : ∀ x ∈ xs, (f x).InvokesOnly p) :
    (xs.forM f).InvokesOnly p := by
  induction xs with
  | nil => exact of_runsNone (.pure _)
  | cons x xs ih =>
    change (f x >>= fun _ => xs.forM f).InvokesOnly p
    exact bind (hf x (List.mem_cons_self ..)) fun _ =>
      ih fun y hy => hf y (List.mem_cons_of_mem _ hy)

end InvokesOnly

end Op

namespace Imports

/-! ### The programs of an update -/

section

variable {runner : Runner} {s : Suite}

theorem fetch_invokes {g : Git} {tree : Path} {revision : String} :
    (fetch runner g tree revision).Invokes fun is => is = commands g tree revision := by
  have hpull := Op.Invokes.after fun w => congrArg Prod.snd (g.run_pull runner tree w)
  have hupdate := Op.Invokes.after fun w => congrArg Prod.snd (g.run_update runner tree w revision)
  have htip := Op.Invokes.after fun w => congrArg Prod.snd (g.run_tip runner tree w)
  exact hpull.bind_eq fun _ => hupdate.bind_eq fun _ => htip

theorem record_runsNone (name tip : String) : (record s name tip).RunsNone := by
  refine .bind (.readText _) fun text => .bind (.ofExcept _ _) fun updated => ?_
  split
  · exact .writeText _ _
  · exact .pure _

/-- A round runs its commands in the checkout of its import. -/
theorem updateImport_invokes {name revision : String} :
    (updateImport runner s name revision).Invokes fun is =>
      ∃ dir, s.config.imports.checkouts[name]? = some dir ∧
        is = commands s.git (s.path dir) revision := by
  rw [updateImport_eq, checkoutOf]
  cases hdir : s.config.imports.checkouts[name]? with
  | none => exact .fail _
  | some dir =>
    -- only the first part of a round runs programs
    have hround : (fetch runner s.git (s.path dir) revision >>= fun tip =>
        record s name tip >>= fun _ => pure tip).Invokes fun is =>
          is = commands s.git (s.path dir) revision ++ ([] ++ []) :=
      fetch_invokes.bind_eq fun tip =>
        (record_runsNone name tip).invokes.bind_eq fun _ => (Op.RunsNone.pure tip).invokes
    refine hround.imp fun is his => ⟨dir, rfl, ?_⟩
    rw [his, List.append_nil, List.append_nil]

theorem copyHeaders_runsNone : (copyHeaders s).RunsNone := by
  rw [copyHeaders, checkoutOf]
  refine .bind ?_ fun checkout => .forM fun file _ => .changePartly _
  split
  · exact .pure _
  · exact .fail _

/-- For a checkout with a file that names their commit the overlays are asked for it, and no other
program is run. -/
theorem updateOverlay_invokes (parent dir : Path) :
    (updateOverlay runner s parent dir).InvokesOnly
      fun i => i = s.git.tipQuery (parent.child "ci-overlays") := by
  have htip := Op.Invokes.after fun w =>
    congrArg Prod.snd (s.git.run_tip runner (parent.child "ci-overlays") w)
  refine .bind (.of_runsNone (.ask _)) fun hasFile => ?_
  split
  · -- the commit is only asked for if the overlays are there, too
    refine .bind (.of_runsNone (.ask _)) fun hasOverlays => ?_
    split
    · refine .bind (.of_eq htip (by simp)) fun tip => ?_
      exact .of_runsNone (.writeText _ _)
    · exact Op.Invokes.fail _
  · exact .of_runsNone (.pure _)

theorem updateOverlays_invokes :
    (updateOverlays runner s).Invokes fun is => ∃ parent, s.dir.parent? = some parent ∧
      ∀ i ∈ is, i = s.git.tipQuery (parent.child "ci-overlays") := by
  rw [updateOverlays]
  cases hparent : s.dir.parent? with
  | none => exact .fail _
  | some parent =>
    have hall : (Op.query (fun d cwd => siblings d cwd parent) >>= fun dirs =>
        dirs.forM (updateOverlay runner s parent)).InvokesOnly
          fun i => i = s.git.tipQuery (parent.child "ci-overlays") :=
      .bind (.of_runsNone (.query _)) fun dirs =>
        .forM fun dir _ => updateOverlay_invokes parent dir
    exact hall.imp fun is his => ⟨parent, rfl, his⟩

/-- The programs that a stage runs. -/
def Stage.Invokes (s : Suite) (is : List Invocation) : Stage → Prop
  | overlays => ∃ parent, s.dir.parent? = some parent ∧
      ∀ i ∈ is, i = s.git.tipQuery (parent.child "ci-overlays")
  | round name => ∃ dir, s.config.imports.checkouts[name]? = some dir ∧
      is = commands s.git (s.path dir) s.config.imports.defaultRevision
  | headers => is = []

theorem Stage.op_invokes (stage : Stage) :
    (stage.op runner s).Invokes fun is => stage.Invokes s is := by
  cases stage with
  | overlays => exact updateOverlays_invokes
  | round name => exact updateImport_invokes.discard
  | headers => exact copyHeaders_runsNone.invokes

end

/-! ### Stages in order -/

/-- Stages are completed one after the other, from one world to another: each has done its work, and
together they ran these programs. -/
inductive Completed (runner : Runner) (s : Suite) :
    World → List Stage → List Invocation → World → Prop
  | nil {w : World} : Completed runner s w [] [] w
  | cons {w v w' : World} {stage : Stage} {stages : List Stage} {is js : List Invocation} :
      (stage.op runner s).run.run w = (.ok (), v) → stage.Done runner s w v →
      stage.Invokes s is → v.invocations = w.invocations ++ is →
      Completed runner s v stages js w' → Completed runner s w (stage :: stages) (is ++ js) w'

section

variable {runner : Runner} {s : Suite} {w w' : World} {stages : List Stage}
  {is : List Invocation} {args args' : List String}

theorem Completed.invocations_eq (h : Completed runner s w stages is w') :
    w'.invocations = w.invocations ++ is := by
  induction h with
  | nil => exact (List.append_nil _).symm
  | cons _ _ _ hcalls _ ih => rw [ih, hcalls, List.append_assoc]

/-- **A series of stages ends without an error** exactly if all of them are completed. -/
theorem exists_completed_iff :
    (∃ is, Completed runner s w stages is w') ↔
      (stages.forM (Stage.op runner s)).run.run w = (.ok (), w') := by
  constructor
  · rintro ⟨is, h⟩
    induction h with
    | nil => rfl
    | cons hrun _ _ _ _ ih =>
      rw [Op.run_forM_cons, hrun]
      exact ih
  · intro h
    induction stages generalizing w with
    | nil =>
      obtain ⟨-, rfl⟩ := Prod.mk.inj h
      exact ⟨[], .nil⟩
    | cons stage stages ih =>
      obtain ⟨v, hrun, hstages⟩ := Op.exists_of_run_forM_cons h
      obtain ⟨is, his, hcalls⟩ := stage.op_invokes w ⟨⟩ v hrun
      obtain ⟨js, hrest⟩ := ih hstages
      exact ⟨is ++ js, .cons hrun (stage.done_of_run hrun) his hcalls hrest⟩

theorem overlay_expand_iff :
    (Request.expand args).overlay = true ↔ Request.overlayName ∈ askedNames args := by
  rw [Request.expand, ← askedNames]
  simp

/-- **The same names make the same request.** -/
theorem expand_congr (h : ∀ name, name ∈ askedNames args ↔ name ∈ askedNames args') :
    Request.expand args = Request.expand args' := by
  have hoverlay : (Request.expand args).overlay = (Request.expand args').overlay := by
    rw [Bool.eq_iff_iff, overlay_expand_iff, overlay_expand_iff, h]
  have hnames : (Request.expand args).names = (Request.expand args').names := by
    refine Std.ExtTreeSet.ext_mem fun name => ?_
    simp only [mem_names_iff, h]
  calc Request.expand args = ⟨(Request.expand args).overlay, (Request.expand args).names⟩ := rfl
    _ = ⟨(Request.expand args').overlay, (Request.expand args').names⟩ := by rw [hoverlay, hnames]

/-- The names of a request are in order, without repetitions. -/
theorem pairwise_names (r : Request) : r.names.toList.Pairwise (· < ·) := by
  have hordered := r.names.ordered_toList
  exact hordered.imp fun h => compareOfLessAndEq_eq_lt.mp h

end

/-- **What an update does and in which order.**  With `askedNames args` the names that are asked
for, the first two parts say which imports belong to the request and whether the overlays do.  An
update succeeds exactly if it completes the overlays, when they are asked for, then the imports in
order, each of them once, and the headers directly behind the import that has them.  What it leaves
behind and the programs it runs are those of these stages, one after the other.  So an update for
the same names is the same operation. -/
theorem updateImports_order (runner : Runner) (s : Suite) (args : List String) :
    let request := Request.expand args
    let names := request.names.toList
    (request.overlay = true ↔ "overlay" ∈ askedNames args) ∧
    (∀ name, name ∈ names ↔
      (name ∈ askedNames args ∧ name ≠ "overlay" ∧ name ≠ "truffle") ∨
        (name = "sulong" ∨ name = "regex") ∧
          ("truffle" ∈ askedNames args ∨ "sulong" ∈ askedNames args ∨
            "regex" ∈ askedNames args)) ∧
    names.Pairwise (· < ·) ∧
    (∀ w w', (updateImports runner s args).run.run w = (.ok (), w') ↔
      ∃ is, w'.invocations = w.invocations ++ is ∧
        Completed runner s w ((if request.overlay then [Stage.overlays] else []) ++
          names.flatMap fun name =>
            .round name :: if name = "sulong" then [.headers] else []) is w') ∧
    ∀ args', (∀ name, name ∈ askedNames args ↔ name ∈ askedNames args') →
      updateImports runner s args = updateImports runner s args' := by
  refine ⟨overlay_expand_iff, fun name => ?_, pairwise_names _, fun w w' => ?_, fun args' h => ?_⟩
  · rw [Std.ExtTreeSet.mem_toList, mem_names_iff]
    simp [Request.pair, Request.frameworkName, Request.overlayName]
  · rw [updateImports_eq_forM, ← exists_completed_iff]
    exact exists_congr fun is => ⟨fun h => ⟨h.invocations_eq, h⟩, fun h => h.2⟩
  · rw [updateImports_eq_forM, updateImports_eq_forM, expand_congr h]

/-! ### An update of everything -/

/-- A suite next to a checkout with a header, to the overlays, and to a checkout like that of the
suite with a file that names the commit of the overlays. -/
def besideOverlays : World :=
  World.start ((Disk.empty ⟨10⟩).plant []
    [⟨⟨"s/mx.graalpython/suite.py"⟩, .file (definition "a0" "a0").toUTF8 false none⟩,
      ⟨⟨"graal/a.h"⟩, .file "int a;\n".toUTF8 false none⟩,
      ⟨⟨"ci-overlays/a"⟩, .file ByteArray.empty false none⟩,
      ⟨⟨"graalpython/ci.jsonnet"⟩, .file ByteArray.empty false none⟩]) [] ⟨"/tmp"⟩ ∅

/-- Programs that succeed and print a commit. -/
def succeeds : Runner := fun _ w =>
  ⟨w.disk, .ok ⟨some 0, "b1\n", ""⟩, ByteArray.empty, ByteArray.empty, []⟩

/-- The overlays and the two suites of the framework are asked for in two ways.  In the end both
suites and the overlays are recorded at the commit, and the header stands in its directory. -/
theorem updateImports_order_everything :
    (∃ is w', Completed succeeds headerSuite besideOverlays
      [.overlays, .round "regex", .round "sulong", .headers] is w' ∧
      is.map Invocation.args = [["rev-parse", "HEAD"],
        ["pull"], ["checkout", "--quiet", "origin/master"], ["rev-parse", "HEAD"],
        ["pull"], ["checkout", "--quiet", "origin/master"], ["rev-parse", "HEAD"]] ∧
      w'.disk.textAt [] ⟨"/graalpython/ci.jsonnet"⟩ = .ok "\x7b overlay: \"b1\" \x7d\n" ∧
      w'.disk.textAt [] ⟨"/s/mx.graalpython/suite.py"⟩ = .ok (definition "b1" "b1") ∧
      w'.disk.textAt [] ⟨"/s/graalpython/com.oracle.graal.python.cext/include/a.h"⟩ =
        .ok "int a;\n") ∧
      updateImports succeeds headerSuite ["truffle", "overlay"] =
        updateImports succeeds headerSuite ["overlay", "truffle", "overlay"] := by
  obtain ⟨-, -, -, hruns, hsame⟩ :=
    updateImports_order succeeds headerSuite ["truffle", "overlay"]
  refine ⟨?_, hsame _ fun name => ?_⟩
  · have hafter :
        let after :=
          (updateImports succeeds headerSuite ["truffle", "overlay"]).run.run besideOverlays
        after.1 = .ok () ∧ after.2.invocations.map Invocation.args = [["rev-parse", "HEAD"],
          ["pull"], ["checkout", "--quiet", "origin/master"], ["rev-parse", "HEAD"],
          ["pull"], ["checkout", "--quiet", "origin/master"], ["rev-parse", "HEAD"]] ∧
        after.2.disk.textAt [] ⟨"/graalpython/ci.jsonnet"⟩ = .ok "\x7b overlay: \"b1\" \x7d\n" ∧
        after.2.disk.textAt [] ⟨"/s/mx.graalpython/suite.py"⟩ = .ok (definition "b1" "b1") ∧
        after.2.disk.textAt [] ⟨"/s/graalpython/com.oracle.graal.python.cext/include/a.h"⟩ =
          .ok "int a;\n" := by
      decide +kernel
    rcases hrun : (updateImports succeeds headerSuite ["truffle", "overlay"]).run.run
      besideOverlays with ⟨r, w'⟩
    rw [hrun] at hafter
    obtain ⟨rfl, hargs, htexts⟩ : r = .ok () ∧ _ := hafter
    have hstages : ((if (Request.expand ["truffle", "overlay"]).overlay then [Stage.overlays]
        else []) ++ (Request.expand ["truffle", "overlay"]).names.toList.flatMap fun name =>
          .round name :: if name = "sulong" then [.headers] else []) =
        [.overlays, .round "regex", .round "sulong", .headers] := by
      decide +kernel
    have hnone : besideOverlays.invocations = [] := rfl
    obtain ⟨is, hcalls, hcompleted⟩ := (hruns _ _).mp hrun
    rw [hstages] at hcompleted
    rw [hnone, List.nil_append] at hcalls
    exact ⟨is, w', hcompleted, hcalls ▸ hargs, htexts⟩
  · change name ∈ ["truffle", "overlay"] ↔ name ∈ ["overlay", "truffle", "overlay"]
    simp only [List.mem_cons, List.not_mem_nil]
    tauto

end Imports

end SuiteGate
