import SuiteGate.Imports.Search
import SuiteGate.Proofs.Tools.Repository
import SuiteGate.Scripted.Runner
/-!
# Where a search leaves a checkout

A search looks at one commit after the other.  What it can do at each of them is said by `Course`,
one constructor for each way to end there and one for going on to the first parent; every run of
`Search.loop` is a course (`loop_course`), and what holds of all runs is proved by induction on it.
The bound on the commits only matters for a search that reaches it (`loop_of_le`).

The headline is `run_checkouts`: each revision that is checked out is the first parent named just
before, or the commit at the start if no parent was named, and then nothing comes after.  So the
checkout is back at the start when the history is exhausted.  It is not when the search ends with
an error on its way (`left_behind`).
-/

namespace SuiteGate.Imports.Search

section

variable (runner : Runner) (g : Git) (checkout file : Path) (needed start : String)

/-- A suite definition that does not name the version is passed over, and the version control
program names the parents of its commit. -/
structure PassedOver (w : World) (parents : List String) : Prop where
  other : ∃ text, w.disk.textAt w.cwd file = .ok text ∧ frameworkVersion? text ≠ some needed
  named : ∃ output, runner.answer (g.parentsQuery checkout) w = .ok output ∧
    Text.words output.stdout = parents

/-- `Course n w r w'`: a search among at most `n` commits that starts in `w` can end with `r` in
`w'`. -/
inductive Course : ℕ → World → Except Fault SearchResult → World → Prop where
  | unfinished {w : World} : Course 0 w (.ok .unfinished) w
  | unreadable {n : ℕ} {w : World} {e : IoError} :
      w.disk.textAt w.cwd file = .error e → Course (n + 1) w (.error (.error (.io e))) w
  | matched {n : ℕ} {w : World} {text : String} :
      w.disk.textAt w.cwd file = .ok text → frameworkVersion? text = some needed →
      Course (n + 1) w
        (((runner.answer (g.tipQuery checkout) w).map fun o =>
          .found (Text.trim o.stdout)).mapError .error)
        (runner.after (g.tipQuery checkout) w)
  | unanswered {n : ℕ} {w : World} {text : String} {e : Error} :
      w.disk.textAt w.cwd file = .ok text → frameworkVersion? text ≠ some needed →
      runner.answer (g.parentsQuery checkout) w = .error e →
      Course (n + 1) w (.error (.error e)) (runner.after (g.parentsQuery checkout) w)
  | exhausted {n : ℕ} {w v : World} :
      PassedOver runner g checkout file needed w [] →
      v = (runner.after (g.parentsQuery checkout) w).warn "reached oldest revision, reverting" →
      Course (n + 1) w
        (((runner.answer (g.updateCommand checkout start) v).map fun _ =>
          .exhausted).mapError .error)
        (runner.after (g.updateCommand checkout start) v)
  | stuck {n : ℕ} {w v : World} {parent : String} {more : List String} {e : Error} :
      PassedOver runner g checkout file needed w (parent :: more) →
      v = runner.after (g.parentsQuery checkout) w →
      runner.answer (g.updateCommand checkout parent) v = .error e →
      Course (n + 1) w (.error (.error e)) (runner.after (g.updateCommand checkout parent) v)
  | back {n : ℕ} {w v w' : World} {parent : String} {more : List String} {output : ToolOutput}
      {r : Except Fault SearchResult} :
      PassedOver runner g checkout file needed w (parent :: more) →
      v = runner.after (g.parentsQuery checkout) w →
      runner.answer (g.updateCommand checkout parent) v = .ok output →
      Course n (runner.after (g.updateCommand checkout parent) v) r w' →
      Course (n + 1) w r w'

/-- The search at a commit, with what it goes on with. -/
theorem run_loop_succ (n : ℕ) (w : World) :
    (loop runner g checkout file needed start (n + 1)).run.run w =
      match w.disk.textAt w.cwd file with
      | .error e => (.error (.error (.io e)), w)
      | .ok text =>
        if frameworkVersion? text = some needed then
          (((runner.answer (g.tipQuery checkout) w).map fun o =>
            SearchResult.found (Text.trim o.stdout)).mapError .error,
            runner.after (g.tipQuery checkout) w)
        else
          match runner.answer (g.parentsQuery checkout) w with
          | .error e => (.error (.error e), runner.after (g.parentsQuery checkout) w)
          | .ok output =>
            match Text.words output.stdout with
            | [] =>
              let v := (runner.after (g.parentsQuery checkout) w).warn
                "reached oldest revision, reverting"
              (((runner.answer (g.updateCommand checkout start) v).map fun _ =>
                SearchResult.exhausted).mapError .error,
                runner.after (g.updateCommand checkout start) v)
            | parent :: _ =>
              let v := runner.after (g.parentsQuery checkout) w
              match runner.answer (g.updateCommand checkout parent) v with
              | .error e => (.error (.error e), runner.after (g.updateCommand checkout parent) v)
              | .ok _ =>
                (loop runner g checkout file needed start n).run.run
                  (runner.after (g.updateCommand checkout parent) v) := by
  rw [loop, Op.run_bind, Op.run_readText]
  cases w.disk.textAt w.cwd file with
  | error e => rfl
  | ok text =>
    simp only [Except.mapError]
    split
    · rw [Op.run_bind, Git.run_tip]
      cases runner.answer (g.tipQuery checkout) w <;> rfl
    · rw [Op.run_bind, Git.run_parents]
      cases runner.answer (g.parentsQuery checkout) w with
      | error e => rfl
      | ok output =>
        simp only [Except.map, Except.mapError]
        cases Text.words output.stdout with
        | nil =>
          simp only [Op.run_bind, Op.warn, Op.run_modify, Git.run_update]
          cases runner.answer (g.updateCommand checkout start)
            ((runner.after (g.parentsQuery checkout) w).warn
              "reached oldest revision, reverting") <;> rfl
        | cons parent more =>
          simp only [Op.run_bind, Git.run_update]
          cases runner.answer (g.updateCommand checkout parent)
            (runner.after (g.parentsQuery checkout) w) <;> rfl

/-- **Every search is a course.** -/
theorem loop_course (n : ℕ) (w : World) :
    Course runner g checkout file needed start n w
      ((loop runner g checkout file needed start n).run.run w).1
      ((loop runner g checkout file needed start n).run.run w).2 := by
  induction n generalizing w with
  | zero => exact .unfinished
  | succ n ih =>
    rw [run_loop_succ]
    cases htext : w.disk.textAt w.cwd file with
    | error e => exact .unreadable htext
    | ok text =>
      by_cases hversion : frameworkVersion? text = some needed
      · simp only [if_pos hversion]
        exact .matched htext hversion
      · simp only [if_neg hversion]
        cases hanswer : runner.answer (g.parentsQuery checkout) w with
        | error e => exact .unanswered htext hversion hanswer
        | ok output =>
          have hpassed : PassedOver runner g checkout file needed w (Text.words output.stdout) :=
            ⟨⟨text, htext, hversion⟩, output, hanswer, rfl⟩
          cases hwords : Text.words output.stdout with
          | nil =>
            simp only [hwords]
            exact .exhausted (hwords ▸ hpassed) rfl
          | cons parent more =>
            rw [hwords] at hpassed
            simp only [hwords]
            cases hupdate : runner.answer (g.updateCommand checkout parent)
              (runner.after (g.parentsQuery checkout) w) with
            | error e => exact .stuck hpassed rfl hupdate
            | ok o => exact .back hpassed rfl hupdate (ih _)

/-- **A search that ends within its bound** does the same with a greater one. -/
theorem loop_of_le {n m : ℕ} (hle : n ≤ m) {w : World}
    (h : ((loop runner g checkout file needed start n).run.run w).1 ≠ .ok .unfinished) :
    (loop runner g checkout file needed start m).run.run w =
      (loop runner g checkout file needed start n).run.run w := by
  induction n generalizing m w with
  | zero => exact absurd rfl h
  | succ n ih =>
    obtain ⟨m, rfl⟩ : ∃ k, m = k + 1 := ⟨m - 1, by omega⟩
    rw [run_loop_succ] at h
    rw [run_loop_succ, run_loop_succ]
    cases htext : w.disk.textAt w.cwd file with
    | error e => rfl
    | ok text =>
      simp only [htext] at h
      by_cases hversion : frameworkVersion? text = some needed
      · simp only [if_pos hversion]
      · simp only [if_neg hversion] at h ⊢
        cases hanswer : runner.answer (g.parentsQuery checkout) w with
        | error e => rfl
        | ok output =>
          simp only [hanswer] at h
          cases hwords : Text.words output.stdout with
          | nil => simp only [hwords]
          | cons parent more =>
            simp only [hwords] at h ⊢
            cases hupdate : runner.answer (g.updateCommand checkout parent)
              (runner.after (g.parentsQuery checkout) w) with
            | error e => rfl
            | ok o =>
              simp only [hupdate] at h
              exact ih (by omega) h

/-! ### What is checked out -/

/-- Each revision that is checked out is the first parent that the version control program named
just before, or the commit at the start if it named none; then nothing comes after. -/
def FollowsParents (cs : List Call) : Prop :=
  ∀ earlier c later revision, cs = earlier ++ c :: later →
    c.invocation = g.updateCommand checkout revision →
    ∃ before, ∃ v : World, ∃ output, earlier = before ++ [v.record (g.parentsQuery checkout)] ∧
      runner.answer (g.parentsQuery checkout) v = .ok output ∧
      revision = (Text.words output.stdout).head?.getD start ∧
      (Text.words output.stdout = [] → later = [])

section

variable {runner g checkout file needed start}

theorem FollowsParents.of_queries {cs : List Call}
    (h : ∀ c ∈ cs, ∀ revision, c.invocation ≠ g.updateCommand checkout revision) :
    FollowsParents runner g checkout start cs := by
  rintro earlier c later revision rfl hc
  exact absurd hc (h c (by simp) revision)

/-- A query that is no checkout can come first. -/
theorem FollowsParents.cons {c : Call} {cs : List Call}
    (hc : ∀ revision, c.invocation ≠ g.updateCommand checkout revision)
    (h : FollowsParents runner g checkout start cs) :
    FollowsParents runner g checkout start (c :: cs) := by
  intro earlier c' later revision hsplit hc'
  cases earlier with
  | nil =>
    obtain ⟨rfl, -⟩ := List.cons.inj hsplit
    exact absurd hc' (hc revision)
  | cons d earlier =>
    obtain ⟨rfl, hrest⟩ := List.cons.inj hsplit
    obtain ⟨before, v, output, rfl, hnamed⟩ := h earlier c' later revision hrest hc'
    exact ⟨c :: before, v, output, rfl, hnamed⟩

/-- The parents are asked for, the first one or the commit at the start is checked out, and after
the latter nothing comes. -/
theorem FollowsParents.round {w v : World} {parents : List String} {cs : List Call}
    (hpassed : PassedOver runner g checkout file needed w parents)
    (hend : parents = [] → cs = []) (h : FollowsParents runner g checkout start cs) :
    FollowsParents runner g checkout start (w.record (g.parentsQuery checkout) ::
      v.record (g.updateCommand checkout (parents.head?.getD start)) :: cs) := by
  intro earlier c later revision hsplit hc
  obtain ⟨output, hanswer, rfl⟩ := hpassed.named
  -- the split can be at the question, at the checkout of this round, or later
  rcases earlier with - | ⟨first, - | ⟨second, earlier⟩⟩
  · obtain ⟨rfl, -⟩ := List.cons.inj hsplit
    exact absurd hc Git.captured_ne_invocation
  · -- this is the checkout
    obtain ⟨rfl, hsecond⟩ := List.cons.inj hsplit
    obtain ⟨rfl, rfl⟩ := List.cons.inj hsecond
    exact ⟨[], w, output, rfl, hanswer, (Git.eq_of_updateCommand_eq hc).symm, hend⟩
  · obtain ⟨rfl, hsecond⟩ := List.cons.inj hsplit
    obtain ⟨rfl, hlater⟩ := List.cons.inj hsecond
    obtain ⟨before, u, output', rfl, hnamed⟩ := h earlier c later revision hlater hc
    exact ⟨_ :: _ :: before, u, output', rfl, hnamed⟩

/-- **What a course checks out.**  At the end of the history that is the commit at the start. -/
theorem Course.exists_calls {n : ℕ} {w w' : World} {r : Except Fault SearchResult}
    (h : Course runner g checkout file needed start n w r w') :
    ∃ cs, w'.calls = w.calls ++ cs ∧ FollowsParents runner g checkout start cs ∧
      (r = .ok .exhausted →
        ∃ earlier, ∃ v : World, cs = earlier ++ [v.record (g.updateCommand checkout start)]) := by
  -- a single call that is no checkout
  have hone : ∀ (v : World) (i : Invocation), (∀ revision, i ≠ g.updateCommand checkout revision) →
      FollowsParents runner g checkout start [v.record i] := fun v i hi =>
    .of_queries fun c hc => by rw [List.mem_singleton.mp hc]; exact hi
  induction h with
  | unfinished => exact ⟨[], (List.append_nil _).symm, .of_queries (by simp), by simp⟩
  | unreadable => exact ⟨[], (List.append_nil _).symm, .of_queries (by simp), by simp⟩
  | @matched _ w _ _ _ =>
    refine ⟨_, rfl, hone w _ fun _ => Git.captured_ne_invocation, fun hr => ?_⟩
    cases hanswer : runner.answer (g.tipQuery checkout) w <;>
      simp [hanswer, Except.map, Except.mapError] at hr
  | @unanswered _ w _ _ _ _ _ =>
    exact ⟨_, rfl, hone w _ fun _ => Git.captured_ne_invocation, by simp⟩
  | @exhausted _ w v hpassed hv =>
    refine ⟨[w.record _, v.record _], ?_, .round hpassed (fun _ => rfl) (.of_queries (by simp)),
      fun _ => ⟨[w.record _], v, rfl⟩⟩
    rw [hv]
    exact List.append_assoc ..
  | @stuck _ w v parent more _ hpassed hv _ =>
    refine ⟨[w.record _, v.record _], ?_, .round hpassed (by simp) (.of_queries (by simp)),
      by simp⟩
    rw [hv]
    exact List.append_assoc ..
  | @back _ w v w' parent more _ r hpassed hv _ _ ih =>
    obtain ⟨cs, hcalls, hfollows, hend⟩ := ih
    refine ⟨w.record (g.parentsQuery checkout) ::
      v.record (g.updateCommand checkout parent) :: cs, ?_, .round hpassed (by simp) hfollows,
      fun hr => ?_⟩
    · rw [hcalls, hv]
      exact (List.append_assoc ..).trans (List.append_assoc ..)
    · obtain ⟨earlier, u, rfl⟩ := hend hr
      exact ⟨_ :: _ :: earlier, u, rfl⟩

end

end

/-- The commit at the head of a checkout, as the version control program prints it. -/
def printedTip (runner : Runner) (g : Git) (checkout : Path) (w : World) : String :=
  match runner.answer (g.tipQuery checkout) w with
  | .ok output => Text.trim output.stdout
  | .error _ => ""

/-- A search fails before it asks for the commit at the head, or fails with that, or looks at that
commit first. -/
theorem run_cases (runner : Runner) (s : Suite) (limit : ℕ) (checkout : Path) (w : World) :
    (∃ e, (run runner s limit checkout).run.run w = (.error (.error e), w)) ∨
      (∃ e, (run runner s limit checkout).run.run w =
        (.error (.error e), runner.after (s.git.tipQuery checkout) w)) ∨
      ∃ file needed, (run runner s limit checkout).run.run w =
        (loop runner s.git checkout file needed (printedTip runner s.git checkout w) limit).run.run
          (runner.after (s.git.tipQuery checkout) w) := by
  rw [run]
  cases checkout.fileName? with
  | none => exact .inl ⟨_, rfl⟩
  | some project =>
    simp only [Op.run_bind, Op.run_readText]
    cases w.disk.textAt w.cwd (suiteFile s) with
    | error e => exact .inl ⟨_, rfl⟩
    | ok ours =>
      simp only [Except.mapError]
      cases version? ours "sulong" with
      | none => exact .inl ⟨_, rfl⟩
      | some needed =>
        refine .inr ?_
        simp only [Op.run_bind, Git.run_tip, printedTip]
        cases runner.answer (s.git.tipQuery checkout) w with
        | error e => exact .inl ⟨_, rfl⟩
        | ok output => exact .inr ⟨otherSuiteFile checkout project, needed, rfl⟩

/-- A search that knows what to look for looks at the commit at the head first. -/
theorem run_eq_loop {runner : Runner} {s : Suite} {checkout : Path} {w : World}
    {project ours needed : String} {output : ToolOutput}
    (hproject : checkout.fileName? = some project)
    (hours : w.disk.textAt w.cwd (suiteFile s) = .ok ours)
    (hneeded : version? ours "sulong" = some needed)
    (hanswer : runner.answer (s.git.tipQuery checkout) w = .ok output) (limit : ℕ) :
    (run runner s limit checkout).run.run w =
      (loop runner s.git checkout (otherSuiteFile checkout project) needed
        (Text.trim output.stdout) limit).run.run (runner.after (s.git.tipQuery checkout) w) := by
  simp only [run, hproject, Op.run_bind, Op.run_readText, hours, Except.mapError, hneeded,
    Git.run_tip, hanswer]
  rfl

/-- **What a search checks out,** however it ends: the first parent named last, or the commit at
the start when no parent was named.  At the end of the history the checkout is back there. -/
theorem run_checkouts (runner : Runner) (s : Suite) (limit : ℕ) (checkout : Path) (w : World) :
    ∃ cs, ((run runner s limit checkout).run.run w).2.calls = w.calls ++ cs ∧
      FollowsParents runner s.git checkout (printedTip runner s.git checkout w) cs ∧
      (((run runner s limit checkout).run.run w).1 = .ok .exhausted → ∃ earlier, ∃ v : World,
        cs = earlier ++
          [v.record (s.git.updateCommand checkout (printedTip runner s.git checkout w))]) := by
  have htip : ∀ revision,
      (w.record (s.git.tipQuery checkout)).invocation ≠ s.git.updateCommand checkout revision :=
    fun _ => Git.captured_ne_invocation
  rcases run_cases runner s limit checkout w with ⟨e, h⟩ | ⟨e, h⟩ | ⟨file, needed, h⟩
  · rw [h]
    exact ⟨[], (List.append_nil _).symm, .of_queries (by simp), by simp⟩
  · rw [h]
    exact ⟨_, rfl, .cons htip (.of_queries (by simp)), by simp⟩
  · rw [h]
    obtain ⟨cs, hcalls, hfollows, hend⟩ :=
      (loop_course runner s.git checkout file needed (printedTip runner s.git checkout w) limit
        (runner.after (s.git.tipQuery checkout) w)).exists_calls
    refine ⟨w.record (s.git.tipQuery checkout) :: cs, ?_, .cons htip hfollows, fun hr => ?_⟩
    · rw [hcalls]
      exact List.append_assoc ..
    · obtain ⟨earlier, v, rfl⟩ := hend hr
      exact ⟨_ :: earlier, v, rfl⟩

/-! ### A small checkout -/

/-- A suite at the root of the disk, whose definition is beside it. -/
def smallSuite : Suite :=
  { config := { suite := { dir := ⟨"/"⟩ }, imports := { suiteFile := ⟨"suite.py"⟩ } } }

/-- Its suite definition, and that of another checkout, which names another version. -/
def smallWorld : World :=
  World.start ((Disk.empty ⟨10⟩).plant []
    [⟨⟨"suite.py"⟩,
        .file "'name': 'sulong', 'version': 'a'".toUTF8 false none⟩,
      ⟨⟨"other/mx.other/suite.py"⟩,
        .file "'name': 'sulong', 'version': 'b'".toUTF8 false none⟩]) [] ⟨"/tmp"⟩ ∅

/-- A history of two commits, the older of which has no suite definition. -/
def smallTools : Runner :=
  Scripted.runner []
    [{ pattern := "rev-parse", output := ⟨some 0, "c1\n", ""⟩ },
      { pattern := "show", output := ⟨some 0, "c0\n", ""⟩ },
      { pattern := "checkout", changes := [⟨⟨"other/mx.other/suite.py"⟩, .nothing⟩] }]

/-- **A search that ends with an error leaves the checkout behind,** here at a commit that has no
suite definition. -/
theorem left_behind :
    let after := (run smallTools smallSuite 10 ⟨"/other"⟩).run.run smallWorld
    after.1 = .error (.error (.io (.os .notFound))) ∧
      printedTip smallTools smallSuite.git ⟨"/other"⟩ smallWorld = "c1" ∧
      after.2.calls.map (fun c => c.invocation.args) =
        [["rev-parse", "HEAD"], ["show", "--pretty=format:%P", "-s", "HEAD"],
          ["checkout", "--quiet", "c0"]] := by
  decide +kernel

end SuiteGate.Imports.Search
