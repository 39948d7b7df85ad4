import Mathlib.Data.Finset.Basic
import Mathlib.Data.Fintype.EquivFin
import Mathlib.Order.RelClasses
import SuiteGate.Proofs.Imports.Searches
/-!
# What a search finds in a history

A `History` is finite and has no cycles, so the first parents of a commit end at a commit without
parents (`History.exists_firstParents`), and they can be listed in one way only
(`FirstParents.unique`).  `Serves` says what is assumed of the version control program: it prints
the commit at the head and that commit's parents, and a checkout moves the head and puts the suite
definition of the commit in the tree.

The headline is `run_finds`.  The search ends at the nearest first parent whose suite definition
names the version, and with the head there; if there is none, the head is back at the start.
-/

namespace SuiteGate.Imports.Search

/-! ### Histories -/

/-- A finite history without cycles, with the suite definition of each commit that has one. -/
structure History where
  commits : Finset String
  parents : String → List String
  definition : String → Option String
  closed : ∀ c ∈ commits, ∀ p ∈ parents c, p ∈ commits
  acyclic : ∀ c ∈ commits, ¬ Relation.TransGen (fun c p => p ∈ parents c) c c

/-- `FirstParents h c chain`: from a commit along the first parents to the end of the history come
the commits of the chain, that commit first. -/
inductive FirstParents (h : History) : String → List String → Prop where
  | root {c : String} : h.parents c = [] → FirstParents h c [c]
  | step {c parent : String} {more chain : List String} :
      h.parents c = parent :: more → FirstParents h parent chain → FirstParents h c (c :: chain)

theorem FirstParents.unique {h : History} {c : String} {chain chain' : List String}
    (hc : FirstParents h c chain) (hc' : FirstParents h c chain') : chain = chain' := by
  induction hc generalizing chain' with
  | root hroot =>
    cases hc' with
    | root => rfl
    | step hstep => exact absurd (hroot.symm.trans hstep) (by simp)
  | step hstep _ ih =>
    cases hc' with
    | root hroot => exact absurd (hroot.symm.trans hstep) (by simp)
    | step hstep' hrest =>
      obtain ⟨rfl, -⟩ := List.cons.inj (hstep.symm.trans hstep')
      rw [ih hrest]

theorem FirstParents.length_pos {h : History} {c : String} {chain : List String}
    (hc : FirstParents h c chain) : 0 < chain.length := by
  cases hc <;> exact Nat.succ_pos _

namespace History

variable (h : History)

/-- One commit is an earlier one of another. -/
def Earlier (p c : h.commits) : Prop :=
  Relation.TransGen (fun c p => p ∈ h.parents c) c.1 p.1

theorem wellFounded_earlier : WellFounded h.Earlier := by
  have : IsTrans h.commits h.Earlier := ⟨fun _ _ _ hab hbc => hbc.trans hab⟩
  have : Std.Irrefl h.Earlier := ⟨fun c => h.acyclic c.1 c.2⟩
  exact Finite.wellFounded_of_trans_of_irrefl _

/-- **The first parents of a commit come to an end.** -/
theorem exists_firstParents {c : String} (hc : c ∈ h.commits) :
    ∃ chain, FirstParents h c chain := by
  suffices hall : ∀ c : h.commits, ∃ chain, FirstParents h c.1 chain from hall ⟨c, hc⟩
  intro c
  induction c using h.wellFounded_earlier.induction with
  | _ c ih =>
    cases hparents : h.parents c.1 with
    | nil => exact ⟨_, .root hparents⟩
    | cons parent more =>
      have hmem : parent ∈ h.parents c.1 := by simp [hparents]
      obtain ⟨chain, hchain⟩ := ih ⟨parent, h.closed c.1 c.2 parent hmem⟩ (.single hmem)
      exact ⟨_, .step hparents hchain⟩

/-- The suite definition of a commit names a version. -/
def Names (needed c : String) : Prop :=
  (h.definition c).bind frameworkVersion? = some needed

instance (needed c : String) : Decidable (h.Names needed c) :=
  inferInstanceAs (Decidable (_ = _))

/-- The first of some commits whose suite definition names a version. -/
def nearest? (needed : String) (chain : List String) : Option String :=
  chain.find? fun c => decide (h.Names needed c)

theorem nearest?_nil (needed : String) : h.nearest? needed [] = none := rfl

variable {h}

theorem nearest?_cons_of_names {needed c : String} (hc : h.Names needed c) (chain : List String) :
    h.nearest? needed (c :: chain) = some c :=
  List.find?_cons_of_pos (decide_eq_true hc)

theorem nearest?_cons_of_not_names {needed c : String} (hc : ¬ h.Names needed c)
    (chain : List String) : h.nearest? needed (c :: chain) = h.nearest? needed chain :=
  List.find?_cons_of_neg (by simpa using hc)

end History

/-! ### What is assumed of the version control program -/

/-- The head of the checkout is at a commit, whose suite definition is in the tree. -/
structure StandsAt (h : History) (head : Disk → Option String) (file : Path) (w : World)
    (c : String) : Prop where
  head_eq : head w.disk = some c
  mem : c ∈ h.commits
  text : ∀ t, h.definition c = some t → w.disk.textAt w.cwd file = .ok t

/-- Run from a directory and in an environment, the version control program prints the commit at
the head of the checkout and its parents and leaves the checkout there, and moves it to a commit
that is checked out. -/
structure Serves (runner : Runner) (g : Git) (checkout file : Path) (h : History)
    (head : Disk → Option String) (cwd : List Name) (environment : Environment) : Prop where
  tip : ∀ w c, w.cwd = cwd → w.environment = environment → StandsAt h head file w c →
    StandsAt h head file (runner.after (g.tipQuery checkout) w) c ∧
      ∃ output, runner.answer (g.tipQuery checkout) w = .ok output ∧ Text.trim output.stdout = c
  parents : ∀ w c, w.cwd = cwd → w.environment = environment → StandsAt h head file w c →
    StandsAt h head file (runner.after (g.parentsQuery checkout) w) c ∧
      ∃ output, runner.answer (g.parentsQuery checkout) w = .ok output ∧
        Text.words output.stdout = h.parents c
  update : ∀ w c c', w.cwd = cwd → w.environment = environment → StandsAt h head file w c →
    c' ∈ h.commits →
    StandsAt h head file (runner.after (g.updateCommand checkout c') w) c' ∧
      ∃ output, runner.answer (g.updateCommand checkout c') w = .ok output

/-! ### The search -/

section

variable {runner : Runner} {g : Git} {checkout file : Path} {h : History}
  {head : Disk → Option String} {needed start : String}

/-- A search at a commit that names the version ends there. -/
theorem loop_of_names {w : World} {c : String}
    (hserves : Serves runner g checkout file h head w.cwd w.environment)
    (hw : StandsAt h head file w c) (hnames : h.Names needed c) (n : ℕ) :
    (loop runner g checkout file needed start (n + 1)).run.run w =
      (.ok (.found c), runner.after (g.tipQuery checkout) w) := by
  obtain ⟨text, htext, hversion⟩ := Option.bind_eq_some_iff.mp hnames
  obtain ⟨-, output, hanswer, htrim⟩ := hserves.tip w c rfl rfl hw
  rw [run_loop_succ, hw.text text htext]
  simp only [if_pos hversion, hanswer]
  rw [← htrim]
  rfl

/-- That commit is the nearest one, whatever comes after it. -/
theorem loop_finds_of_names {w : World} {c : String}
    (hserves : Serves runner g checkout file h head w.cwd w.environment)
    (hw : StandsAt h head file w c) (hnames : h.Names needed c) (chain : List String) (n : ℕ) :
    ∃ r w', (loop runner g checkout file needed start (n + 1)).run.run w = (.ok r, w') ∧
      match h.nearest? needed (c :: chain) with
      | some c => r = .found c ∧ head w'.disk = some c
      | none => r = .exhausted ∧ head w'.disk = some start := by
  refine ⟨_, _, loop_of_names hserves hw hnames n, ?_⟩
  rw [History.nearest?_cons_of_names hnames]
  exact ⟨rfl, (hserves.tip w c rfl rfl hw).1.head_eq⟩

/-- Any other commit is passed over. -/
theorem passedOver_of_not_names {w : World} {c : String}
    (hserves : Serves runner g checkout file h head w.cwd w.environment)
    (hw : StandsAt h head file w c) (hreadable : (h.definition c).isSome)
    (hnames : ¬ h.Names needed c) :
    PassedOver runner g checkout file needed w (h.parents c) := by
  obtain ⟨text, htext⟩ := Option.isSome_iff_exists.mp hreadable
  obtain ⟨-, hparents⟩ := hserves.parents w c rfl rfl hw
  refine ⟨⟨text, hw.text text htext, ?_⟩, hparents⟩
  simpa [History.Names, htext] using hnames

/-- A search that passes over a commit without parents goes back to the start. -/
theorem loop_of_root {w : World} {c : String}
    (hserves : Serves runner g checkout file h head w.cwd w.environment)
    (hw : StandsAt h head file w c) (hstart : start ∈ h.commits)
    (hpassed : PassedOver runner g checkout file needed w []) (n : ℕ) :
    ∃ w', (loop runner g checkout file needed start (n + 1)).run.run w = (.ok .exhausted, w') ∧
      head w'.disk = some start := by
  obtain ⟨text, htext, hother⟩ := hpassed.other
  obtain ⟨output, hanswer, hwords⟩ := hpassed.named
  let v := (runner.after (g.parentsQuery checkout) w).warn "reached oldest revision, reverting"
  have hv : StandsAt h head file v c :=
    ⟨(hserves.parents w c rfl rfl hw).1.head_eq, hw.mem, (hserves.parents w c rfl rfl hw).1.text⟩
  obtain ⟨hback, o, hupdate⟩ := hserves.update v c start rfl rfl hv hstart
  refine ⟨runner.after (g.updateCommand checkout start) v, ?_, hback.head_eq⟩
  rw [run_loop_succ, htext]
  simp only [if_neg hother, hanswer, hwords, hupdate, v]
  rfl

/-- A search that passes over any other commit goes on with the first parent. -/
theorem loop_of_parent {w : World} {c parent : String} {more : List String}
    (hserves : Serves runner g checkout file h head w.cwd w.environment)
    (hw : StandsAt h head file w c) (hparent : parent ∈ h.commits)
    (hpassed : PassedOver runner g checkout file needed w (parent :: more)) (n : ℕ) :
    ∃ v : World, v.cwd = w.cwd ∧ v.environment = w.environment ∧ StandsAt h head file v parent ∧
      (loop runner g checkout file needed start (n + 1)).run.run w =
        (loop runner g checkout file needed start n).run.run v := by
  obtain ⟨text, htext, hother⟩ := hpassed.other
  obtain ⟨output, hanswer, hwords⟩ := hpassed.named
  let v := runner.after (g.parentsQuery checkout) w
  obtain ⟨hback, o, hupdate⟩ :=
    hserves.update v c parent rfl rfl (hserves.parents w c rfl rfl hw).1 hparent
  refine ⟨runner.after (g.updateCommand checkout parent) v, rfl, rfl, hback, ?_⟩
  rw [run_loop_succ, htext]
  simp only [if_neg hother, hanswer, hwords, hupdate, v]

/-- **What a search finds** from a commit on.  The induction is on the first parents that are
left; that those passed over do not name the version is kept by `List.find?`. -/
theorem loop_finds (needed : String) {c : String} {chain : List String}
    (hchain : FirstParents h c chain) (hreadable : ∀ c ∈ chain, (h.definition c).isSome)
    (hstart : start ∈ h.commits) {w : World}
    (hserves : Serves runner g checkout file h head w.cwd w.environment)
    (hw : StandsAt h head file w c) {n : ℕ} (hn : chain.length ≤ n) :
    ∃ r w', (loop runner g checkout file needed start n).run.run w = (.ok r, w') ∧
      match h.nearest? needed chain with
      | some c => r = .found c ∧ head w'.disk = some c
      | none => r = .exhausted ∧ head w'.disk = some start := by
  induction hchain generalizing w n with
  | @root c hroot =>
    -- a bound that is not below the length allows for one more commit
    obtain ⟨n, rfl⟩ : ∃ k, n = k + 1 := ⟨n - 1, by simp at hn; omega⟩
    by_cases hnames : h.Names needed c
    · exact loop_finds_of_names hserves hw hnames [] n
    · have hpassed := passedOver_of_not_names hserves hw (hreadable c (by simp)) hnames
      rw [hroot] at hpassed
      obtain ⟨w', hrun, hhead⟩ := loop_of_root hserves hw hstart hpassed n
      refine ⟨_, w', hrun, ?_⟩
      rw [History.nearest?_cons_of_not_names hnames, History.nearest?_nil]
      exact ⟨rfl, hhead⟩
  | @step c parent more chain hstep _ ih =>
    obtain ⟨n, rfl⟩ : ∃ k, n = k + 1 := ⟨n - 1, by simp at hn; omega⟩
    by_cases hnames : h.Names needed c
    · exact loop_finds_of_names hserves hw hnames chain n
    · have hpassed := passedOver_of_not_names hserves hw (hreadable c (by simp)) hnames
      rw [hstep] at hpassed
      have hparent : parent ∈ h.commits := h.closed c hw.mem parent (by simp [hstep])
      obtain ⟨v, hcwd, henv, hv, hrun⟩ := loop_of_parent hserves hw hparent hpassed n
      rw [hrun, History.nearest?_cons_of_not_names hnames]
      exact ih (fun c hc => hreadable c (List.mem_cons_of_mem _ hc)) (by rwa [hcwd, henv]) hv
        (Nat.le_of_succ_le_succ hn)

end

/-- **What a search finds in a history:** the nearest first parent of the commit at the start that
names the version, or nothing, and then the head is back at the start.  If the commit at the start
names it, nothing is run but the question for the commit at the head. -/
theorem run_finds {runner : Runner} {s : Suite} {checkout : Path} {w : World} {h : History}
    {head : Disk → Option String} {project ours needed start : String}
    (hproject : checkout.fileName? = some project)
    (hours : w.disk.textAt w.cwd (suiteFile s) = .ok ours)
    (hneeded : version? ours "sulong" = some needed)
    (hserves : Serves runner s.git checkout (otherSuiteFile checkout project) h head w.cwd
      w.environment)
    (hstart : StandsAt h head (otherSuiteFile checkout project) w start)
    (hreadable : ∀ chain, FirstParents h start chain → ∀ c ∈ chain, (h.definition c).isSome) :
    ∃ chain, FirstParents h start chain ∧ ∀ limit, chain.length ≤ limit →
      ∃ r w', (run runner s limit checkout).run.run w = (.ok r, w') ∧
        (match h.nearest? needed chain with
          | some c => r = .found c ∧ head w'.disk = some c
          | none => r = .exhausted ∧ head w'.disk = some start) ∧
        (h.Names needed start → ∃ cs, w'.calls = w.calls ++ cs ∧
          ∀ c ∈ cs, c.invocation = s.git.tipQuery checkout) := by
  obtain ⟨chain, hchain⟩ := h.exists_firstParents hstart.mem
  obtain ⟨hv, output, hanswer, rfl⟩ := hserves.tip w start rfl rfl hstart
  refine ⟨chain, hchain, fun limit hlimit => ?_⟩
  have hrun := run_eq_loop hproject hours hneeded hanswer limit
  let v := runner.after (s.git.tipQuery checkout) w
  have hserves : Serves runner s.git checkout (otherSuiteFile checkout project) h head v.cwd
    v.environment := hserves
  obtain ⟨r, w', hloop, hfound⟩ :=
    loop_finds needed hchain (hreadable chain hchain) hstart.mem hserves hv hlimit
  refine ⟨r, w', hrun.trans hloop, hfound, fun hnames => ?_⟩
  obtain ⟨n, rfl⟩ : ∃ k, limit = k + 1 := ⟨limit - 1, by have := hchain.length_pos; omega⟩
  -- only the commit at the head was asked for, before the search and as its result
  rw [loop_of_names hserves hv hnames] at hloop
  obtain ⟨-, rfl⟩ := Prod.mk.inj hloop
  refine ⟨[w.record (s.git.tipQuery checkout), v.record (s.git.tipQuery checkout)],
    List.append_assoc .., fun c hc => ?_⟩
  rcases List.mem_cons.mp hc with rfl | hc
  · rfl
  · rw [List.mem_singleton.mp hc]
    rfl

/-! ### A small history -/

/-- Two commits, of which only the older one names the version that the small suite needs. -/
def smallHistory : History where
  commits := {"c0", "c1"}
  parents c := if c = "c1" then ["c0"] else []
  definition c :=
    some (if c = "c1" then "'name': 'sulong', 'version': 'b'"
      else "'name': 'sulong', 'version': 'a'")
  closed c _ p hp := by
    split at hp
    · rw [List.mem_singleton.mp hp]
      decide
    · cases hp
  acyclic c _ hcycle := by
    -- whatever is later is the one commit and whatever is earlier is the other one
    have hends : ∀ {a b : String}, Relation.TransGen
        (fun c p => p ∈ if c = "c1" then ["c0"] else []) a b → a = "c1" ∧ b = "c0" := by
      intro a b hab
      induction hab with
      | single h => split at h <;> simp_all
      | tail _ h ih => simp [ih.2] at h
    exact absurd ((hends hcycle).1.symm.trans (hends hcycle).2) (by decide)

/-- The disk with a commit of the small history checked out, the commit kept beside it. -/
def smallSnapshot (c : String) : Disk :=
  (Disk.empty ⟨10⟩).plant []
    [⟨⟨"suite.py"⟩,
        .file "'name': 'sulong', 'version': 'a'".toUTF8 false none⟩,
      ⟨⟨"other/mx.other/suite.py"⟩, .file ((smallHistory.definition c).getD "").toUTF8 false none⟩,
      ⟨⟨"other/.git/HEAD"⟩, .file c.toUTF8 false none⟩]

/-- The commit that is kept beside a checkout. -/
def smallHead (d : Disk) : Option String :=
  (d.textAt [] ⟨"/other/.git/HEAD"⟩).toOption

/-- The reply of a program that succeeds. -/
def smallReply (d : Disk) (text : String) : Reply :=
  ⟨d, .ok ⟨some 0, text, ""⟩, ByteArray.empty, ByteArray.empty, []⟩

/-- A version control program for the small history. -/
def smallGit : Runner := fun i w =>
  match i.args, smallHead w.disk with
  | ["rev-parse", "HEAD"], some c => smallReply w.disk (c ++ "\n")
  | ["show", _, _, "HEAD"], some c =>
    smallReply w.disk (Text.join " " (smallHistory.parents c) ++ "\n")
  | ["checkout", "--quiet", c], _ => smallReply (smallSnapshot c) ""
  | _, _ => ⟨w.disk, .error (.os .notFound), ByteArray.empty, ByteArray.empty, []⟩

theorem standsAt_smallSnapshot {c : String} (hc : c ∈ smallHistory.commits) {w : World}
    (hdisk : w.disk = smallSnapshot c) (hcwd : w.cwd = []) :
    StandsAt smallHistory smallHead ⟨"/other/mx.other/suite.py"⟩ w c := by
  have hsmall : ∀ c ∈ smallHistory.commits, smallHead (smallSnapshot c) = some c ∧
      (smallSnapshot c).textAt [] ⟨"/other/mx.other/suite.py"⟩ =
        .ok ((smallHistory.definition c).getD "") := by
    decide +kernel
  refine ⟨hdisk ▸ (hsmall c hc).1, hc, fun t ht => ?_⟩
  rw [hdisk, hcwd, (hsmall c hc).2, ht]
  rfl

/-- A program that leaves the disk as it is leaves the checkout where it is. -/
theorem StandsAt.after {runner : Runner} {h : History} {head : Disk → Option String} {file : Path}
    {w : World} {c : String} {i : Invocation} (hw : StandsAt h head file w c)
    (hdisk : (runner i w).disk = w.disk) : StandsAt h head file (runner.after i w) c :=
  ⟨(congrArg head hdisk).trans hw.head_eq, hw.mem, fun t ht =>
    (congrArg (Disk.textAt · w.cwd file) hdisk).trans (hw.text t ht)⟩

theorem smallGit_serves (environment : Environment) :
    Serves smallGit smallSuite.git ⟨"/other"⟩ ⟨"/other/mx.other/suite.py"⟩ smallHistory smallHead []
      environment where
  tip w c _ _ hw := by
    have hreply : smallGit (smallSuite.git.tipQuery ⟨"/other"⟩) w =
        smallReply w.disk (c ++ "\n") := by
      simp [smallGit, hw.head_eq]
    have htrim : ∀ c ∈ smallHistory.commits, Text.trim (c ++ "\n") = c := by decide +kernel
    exact ⟨hw.after (congrArg Reply.disk hreply), _,
      Runner.answer_eq_ok_iff.mpr ⟨congrArg Reply.outcome hreply, rfl⟩, htrim c hw.mem⟩
  parents w c _ _ hw := by
    have hreply : smallGit (smallSuite.git.parentsQuery ⟨"/other"⟩) w =
        smallReply w.disk (Text.join " " (smallHistory.parents c) ++ "\n") := by
      simp [smallGit, hw.head_eq]
    have hwords : ∀ c ∈ smallHistory.commits,
        Text.words (Text.join " " (smallHistory.parents c) ++ "\n") = smallHistory.parents c := by
      decide +kernel
    exact ⟨hw.after (congrArg Reply.disk hreply), _,
      Runner.answer_eq_ok_iff.mpr ⟨congrArg Reply.outcome hreply, rfl⟩, hwords c hw.mem⟩
  update w c c' hcwd _ _ hc' := by
    have hreply : smallGit (smallSuite.git.updateCommand ⟨"/other"⟩ c') w =
        smallReply (smallSnapshot c') "" := by
      simp [smallGit]
    exact ⟨standsAt_smallSnapshot hc' (congrArg Reply.disk hreply) hcwd, _,
      Runner.answer_eq_ok_iff.mpr ⟨congrArg Reply.outcome hreply, rfl⟩⟩

/-- A world with the newer commit checked out. -/
def smallStart : World :=
  World.start (smallSnapshot "c1") [] ⟨"/tmp"⟩ ∅

/-- A search from the newer commit of the small history finds the older one, and the head is left
there. -/
theorem run_finds_older :
    ∃ w', (run smallGit smallSuite 5 ⟨"/other"⟩).run.run smallStart = (.ok (.found "c0"), w') ∧
      smallHead w'.disk = some "c0" := by
  have hours : smallStart.disk.textAt smallStart.cwd (suiteFile smallSuite) =
      .ok "'name': 'sulong', 'version': 'a'" := by
    decide +kernel
  have hneeded : version? "'name': 'sulong', 'version': 'a'" "sulong" = some "a" := by
    decide +kernel
  have hproject : (⟨"/other"⟩ : Path).fileName? = some "other" := by decide +kernel
  have hfile : otherSuiteFile ⟨"/other"⟩ "other" = ⟨"/other/mx.other/suite.py"⟩ := by decide +kernel
  have hstart : StandsAt smallHistory smallHead (otherSuiteFile ⟨"/other"⟩ "other") smallStart
      "c1" := by
    rw [hfile]
    exact standsAt_smallSnapshot (c := "c1") (by decide) (by rw [smallStart, World.start]) rfl
  obtain ⟨chain, hchain, hfinds⟩ := run_finds hproject hours hneeded (hfile ▸ smallGit_serves ∅)
    hstart (fun _ _ _ _ => rfl)
  obtain rfl : chain = ["c1", "c0"] := hchain.unique (.step rfl (.root rfl))
  obtain ⟨r, w', hrun, hfound, -⟩ := hfinds 5 (by decide)
  have hnearest : smallHistory.nearest? "a" ["c1", "c0"] = some "c0" := by decide +kernel
  rw [hnearest] at hfound
  obtain ⟨rfl, hhead⟩ := hfound
  exact ⟨w', hrun, hhead⟩

end SuiteGate.Imports.Search
