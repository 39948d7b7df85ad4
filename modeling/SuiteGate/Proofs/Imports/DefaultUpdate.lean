import SuiteGate.Proofs.Imports.Updates
/-!
# An update of both suites from one checkout

`Repository` says what is assumed of the version control program in a checkout: it takes over
commits exactly when the head is on a branch, a checkout of the default revision takes the head off
its branch, and the commit at the head is printed.

A round that starts on a branch succeeds and leaves the head off it (`round_onBranch`), so the round
behind it cannot take over commits (`run_fetch_detached`).  The headline is
`updateImports_default`: the update of both suites from one checkout always ends with the error of
its second round, with the first suite at the new commit and the second one where it was.
-/

namespace SuiteGate.Imports

/-- Where the head of a checkout is. -/
structure Head where
  onBranch : Bool
  commit : String
deriving DecidableEq, Repr

/-- The id of a commit: forty hexadecimal digits. -/
def IsCommitId (s : String) : Prop :=
  s.toList.length = 40 ∧ ∀ c ∈ s.toList, isHexDigit c = true

instance : DecidablePred IsCommitId := fun s =>
  decidable_of_iff (s.toList.length = 40 ∧ s.toList.all isHexDigit = true) (by simp [IsCommitId])

theorem IsCommitId.recordable {t : String} (h : IsCommitId t) : Recordable t.toList := by
  refine IsHex.recordable ⟨fun hnil => ?_, h.2⟩
  have hlength := h.1
  rw [hnil] at hlength
  cases hlength

/-- All ids are as long in bytes. -/
theorem IsCommitId.utf8ByteSize {t : String} (h : IsCommitId t) : t.utf8ByteSize = 40 := by
  rw [← h.1, ← utf8ByteSize_ofList h.2, String.ofList_toList]

/-- What is assumed of the version control program in a checkout, `At w h` saying that in the world
`w` its head is at `h`. -/
structure Repository (runner : Runner) (g : Git) (tree : Path) (revision : String) (file : Path)
    (At : World → Head → Prop) : Prop where
  leaves : Leaves runner g tree revision file
  commitId : ∀ {w h}, At w h → IsCommitId h.commit
  /-- Commits can be taken over exactly on a branch. -/
  pull_iff : ∀ {w h}, At w h →
    ((∃ output, runner.answer (g.pullCommand tree) w = .ok output) ↔ h.onBranch = true)
  pull_at : ∀ {w h}, At w h → ∃ c, At (runner.after (g.pullCommand tree) w) ⟨h.onBranch, c⟩
  /-- The head is taken off its branch when the revision is checked out. -/
  update : ∀ {w h}, At w h → ∃ output c,
    runner.answer (g.updateCommand tree revision) w = .ok output ∧
    At (runner.after (g.updateCommand tree revision) w) ⟨false, c⟩
  tip : ∀ {w h}, At w h → ∃ output, runner.answer (g.tipQuery tree) w = .ok output ∧
    Text.trim output.stdout = h.commit ∧ At (runner.after (g.tipQuery tree) w) h
  /-- The head does not move when a text is written over the file. -/
  write : ∀ {w h} {text : String} {disk}, At w h →
    w.disk.writeFile w.cwd file text.toUTF8 = .ok disk → At { w with disk } h

section

variable {runner : Runner} {g : Git} {tree file : Path} {revision : String}
  {At : World → Head → Prop} {w : World} {c : String}

/-- On a branch a checkout is taken to the revision, and off its branch. -/
theorem run_fetch_onBranch (hrepo : Repository runner g tree revision file At)
    (hat : At w ⟨true, c⟩) :
    ∃ c' w', (fetch runner g tree revision).run.run w = (.ok c', w') ∧ At w' ⟨false, c'⟩ ∧
      w'.calls.map Call.invocation =
        w.calls.map Call.invocation ++ commands g tree revision := by
  obtain ⟨o₁, hpull⟩ := (hrepo.pull_iff hat).mpr rfl
  obtain ⟨c₁, hpulled⟩ := hrepo.pull_at hat
  obtain ⟨o₂, c₂, hupdate, hupdated⟩ := hrepo.update hpulled
  obtain ⟨o₃, htip, rfl, htold⟩ := hrepo.tip hupdated
  refine ⟨_, _, ?_, htold, ?_⟩
  · rw [run_fetch]
    simp only [hpull, hupdate, htip, Except.map, Except.mapError]
  · simp [Runner.after, World.record, commands]

/-- Off a branch no commits are taken over. -/
theorem run_fetch_detached (hrepo : Repository runner g tree revision file At)
    (hat : At w ⟨false, c⟩) :
    ∃ e, runner.answer (g.pullCommand tree) w = .error e ∧
      (fetch runner g tree revision).run.run w =
        (.error (.error e), runner.after (g.pullCommand tree) w) := by
  cases hpull : runner.answer (g.pullCommand tree) w with
  | ok output => exact absurd ((hrepo.pull_iff hat).mp ⟨output, hpull⟩) (by simp)
  | error e =>
    refine ⟨e, rfl, ?_⟩
    rw [run_fetch]
    simp only [hpull]

end

section

variable {runner : Runner} {s : Suite} {dir : Path} {name revision text v : String}
  {At : World → Head → Prop} {w : World} {c : String}

/-- **A round that starts on a branch succeeds,** and leaves the head off it. -/
theorem round_onBranch (hdir : s.config.imports.checkouts[name]? = some dir)
    (hrepo : Repository runner s.git (s.path dir) revision (suiteFile s) At)
    (hat : At w ⟨true, c⟩) (htext : w.disk.textAt w.cwd (suiteFile s) = .ok text)
    (hversion : version? text name = some v) (hv : IsCommitId v) :
    ∃ c' w' updated, (updateImport runner s name revision).run.run w = (.ok c', w') ∧
      At w' ⟨false, c'⟩ ∧
      w'.calls.map Call.invocation =
        w.calls.map Call.invocation ++ commands s.git (s.path dir) revision ∧
      exchange text name c' = .ok updated ∧
      w'.disk.textAt w'.cwd (suiteFile s) = .ok updated := by
  obtain ⟨c', u, hfetch, hu, hcalls⟩ := run_fetch_onBranch hrepo hat
  obtain ⟨hcwd, htextu, -⟩ := fetch_textAt hrepo.leaves hfetch
  have hsize : v.utf8ByteSize = c'.utf8ByteSize :=
    hv.utf8ByteSize.trans (hrepo.commitId hu).utf8ByteSize.symm
  obtain ⟨updated, hexchange⟩ := exists_exchange hversion hsize
  have hrecord := run_record name c' (htextu.trans htext)
  rw [hexchange] at hrecord
  obtain ⟨d, hrun, hread, hwritten⟩ := hrecord
  have hat' : At { u with disk := d } ⟨false, c'⟩ := by
    obtain rfl | hwritten := hwritten
    · exact hu
    · exact hrepo.write hu hwritten
  refine ⟨c', { u with disk := d }, updated, ?_, hat', hcalls, hexchange, hread⟩
  rw [updateImport_eq, Op.run_bind, run_checkoutOf, hdir]
  simp only [Op.run_bind, hfetch, hrun]
  rfl

/-- A round that starts off a branch ends with the error of its first command. -/
theorem round_detached (hdir : s.config.imports.checkouts[name]? = some dir)
    (hrepo : Repository runner s.git (s.path dir) revision (suiteFile s) At)
    (hat : At w ⟨false, c⟩) :
    ∃ e, runner.answer (s.git.pullCommand (s.path dir)) w = .error e ∧
      (updateImport runner s name revision).run.run w =
        (.error (.error e), runner.after (s.git.pullCommand (s.path dir)) w) := by
  obtain ⟨e, hpull, hfetch⟩ := run_fetch_detached hrepo hat
  refine ⟨e, hpull, ?_⟩
  rw [updateImport_eq, Op.run_bind, run_checkoutOf, hdir]
  simp only [Op.run_bind, hfetch]

theorem expand_nil_stages :
    (Request.expand []).stages = [.round "regex", .round "sulong", .headers] := by
  decide +kernel

/-- **The update of both suites from one checkout never succeeds.**  It ends with the error with
which commits are not taken over for a second time, as the first round has taken the head off its
branch.  Then the first suite is recorded at the commit at the head and the second one where it
was. -/
theorem updateImports_default
    (hshared : ∀ n ∈ Request.pair, s.config.imports.checkouts[n]? = some dir)
    (hrepo : Repository runner s.git (s.path dir) s.config.imports.defaultRevision (suiteFile s) At)
    (hat : At w ⟨true, c⟩) (htext : w.disk.textAt w.cwd (suiteFile s) = .ok text)
    (hregex : ∃ v, version? text "regex" = some v ∧ IsCommitId v)
    (hsulong : version? text "sulong" = some v) :
    ∃ u e c' text', (updateImports runner s []).run.run w =
        (.error (.error e), runner.after (s.git.pullCommand (s.path dir)) u) ∧
      runner.answer (s.git.pullCommand (s.path dir)) u = .error e ∧
      u.calls.map Call.invocation = w.calls.map Call.invocation ++
        commands s.git (s.path dir) s.config.imports.defaultRevision ∧
      At u ⟨false, c'⟩ ∧
      (runner.after (s.git.pullCommand (s.path dir)) u).disk.textAt u.cwd (suiteFile s) =
        .ok text' ∧
      version? text' "regex" = some c' ∧ version? text' "sulong" = some v := by
  obtain ⟨old, hold, hcommit⟩ := hregex
  obtain ⟨c', u, updated, hfirst, hu, hcalls, hexchange, hread⟩ :=
    round_onBranch (hshared "regex" (by decide)) hrepo hat htext hold hcommit
  obtain ⟨e, hpull, hsecond⟩ := round_detached (hshared "sulong" (by decide)) hrepo hu
  have hregex : Unquoted "regex".toList := unquoted_of_mem_pair (by decide)
  have hrecordable := (hrepo.commitId hu).recordable
  have hname : version? text "regex" ≠ some "name" := by
    rw [hold]
    rintro ⟨⟩
    exact hcommit.recordable.2 rfl
  refine ⟨u, e, c', updated, ?_, hpull, hcalls, hu, ?_,
    version?_exchange_self hrecordable.1 hexchange, ?_⟩
  · rw [updateImports_eq_forM, expand_nil_stages]
    rw [Op.run_forM_cons, Stage.op, Op.run_discard, hfirst]
    simp only [Op.run_forM_cons, Stage.op, Op.run_discard, hsecond]
  · exact (hrepo.leaves _ (by simp [commands]) u).trans hread
  · rw [version?_exchange_of_ne hregex (unquoted_of_mem_pair (by decide)) (by decide) hrecordable
      hname hexchange, hsulong]

end

/-! ### A small repository -/

/-- The commit that the suite definition records, and that of the default revision. -/
def oldId : String := "a0a0a0a0a0a0a0a0a0a0a0a0a0a0a0a0a0a0a0a0"
@[inherit_doc oldId]
def newId : String := "b1b1b1b1b1b1b1b1b1b1b1b1b1b1b1b1b1b1b1b1"

/-- A suite definition with the two suites at given commits. -/
def definition (regex sulong : String) : String :=
  "'name': 'regex', 'version': '" ++ regex ++ "', 'name': 'sulong', 'version': '" ++ sulong ++ "'"

/-- A suite that uses a header. -/
def headerSuite : Suite :=
  { config := { suite := { dir := ⟨"/s"⟩ }, imports := { sulongHeaders := [⟨"a.h"⟩] } } }

/-- The suite next to a checkout that holds the header. -/
def besideHeader : World :=
  World.start ((Disk.empty ⟨10⟩).plant []
    [⟨⟨"s/mx.graalpython/suite.py"⟩, .file (definition oldId oldId).toUTF8 false none⟩,
      ⟨⟨"graal/a.h"⟩, .file ByteArray.empty false none⟩]) [] ⟨"/tmp"⟩ ∅

/-- Whether a checkout has taken the head off its branch. -/
def offBranch (w : World) : Bool :=
  w.calls.any fun c => c.invocation.args.head? = some "checkout"

/-- A version control program that takes over commits on a branch only. -/
def smallRepository : Runner := fun i w =>
  let refused := i.args = ["pull"] ∧ offBranch w
  ⟨w.disk, .ok ⟨some (if refused then 1 else 0), newId ++ "\n",
    if refused then "You are not currently on a branch.\n" else ""⟩, ByteArray.empty,
    ByteArray.empty, []⟩

theorem offBranch_after (i : Invocation) (w : World) :
    offBranch (smallRepository.after i w) = (offBranch w || i.args.head? = some "checkout") := by
  simp [offBranch, Runner.after, World.record]

theorem answer_smallRepository {i : Invocation} {w : World}
    (h : ¬ (i.args = ["pull"] ∧ offBranch w)) :
    smallRepository.answer i w = .ok ⟨some 0, newId ++ "\n", ""⟩ :=
  Runner.answer_eq_ok_iff.mpr ⟨by simp [smallRepository, h], rfl⟩

theorem smallRepository_isRepository :
    Repository smallRepository headerSuite.git ⟨"/s/../graal"⟩ "origin/master"
      (suiteFile headerSuite) fun w h => h = ⟨!offBranch w, newId⟩ where
  leaves _ _ _ := rfl
  commitId := by
    rintro w _ rfl
    change IsCommitId newId
    decide
  pull_iff := by
    rintro w _ rfl
    cases hoff : offBranch w with
    | true =>
      simp only [Runner.answer_eq_ok_iff, smallRepository, Git.args_pullCommand, hoff]
      grind
    | false =>
      exact ⟨fun _ => rfl, fun _ => ⟨_, answer_smallRepository (by simp [hoff])⟩⟩
  pull_at := by
    rintro w _ rfl
    exact ⟨newId, by simp [offBranch_after]⟩
  update := by
    rintro w _ rfl
    exact ⟨_, newId, answer_smallRepository (by simp), by simp [offBranch_after]⟩
  tip := by
    rintro w _ rfl
    have htrim : Text.trim (newId ++ "\n") = newId := by decide +kernel
    exact ⟨_, answer_smallRepository (by simp), htrim, by simp [offBranch_after]⟩
  write := by
    rintro w _ text disk rfl _
    rfl

/-- **The update of both suites fails where it should succeed:** the checkout starts on a branch and
holds the header, both suites are recorded at ids, and the second one is left there. -/
theorem updateImports_default_fails :
    let after := (updateImports smallRepository headerSuite []).run.run besideHeader
    offBranch besideHeader = false ∧
      besideHeader.disk.textAt [] (suiteFile headerSuite) = .ok (definition oldId oldId) ∧
      version? (definition oldId oldId) "regex" = some oldId ∧
      version? (definition oldId oldId) "sulong" = some oldId ∧
      besideHeader.disk.isFile [] ⟨"/s/../graal/a.h"⟩ = true ∧
      after.1 = .error (.error (.tool (.nonZeroExit "git pull" (some 1)
        "You are not currently on a branch.\n"))) ∧
      after.2.disk.textAt [] (suiteFile headerSuite) = .ok (definition newId oldId) ∧
      version? (definition newId oldId) "sulong" = some oldId := by
  decide +kernel

/-- The update ends with the error of its second round, and leaves the second suite behind. -/
theorem updateImports_default_small :
    ∃ e w' text, (updateImports smallRepository headerSuite []).run.run besideHeader =
        (.error (.error e), w') ∧
      w'.disk.textAt w'.cwd (suiteFile headerSuite) = .ok text ∧
      version? text "regex" = some newId ∧ version? text "sulong" = some oldId := by
  have hstart : offBranch besideHeader = false ∧
      besideHeader.disk.textAt besideHeader.cwd (suiteFile headerSuite) =
        .ok (definition oldId oldId) ∧
      ∀ n ∈ Request.pair, version? (definition oldId oldId) n = some oldId := by
    decide +kernel
  have hshared : ∀ n ∈ Request.pair,
      headerSuite.config.imports.checkouts[n]? = some ⟨"../graal"⟩ := by
    decide +kernel
  have hpath : headerSuite.path ⟨"../graal"⟩ = ⟨"/s/../graal"⟩ := by decide +kernel
  have hid : IsCommitId oldId := by
    decide
  obtain ⟨hbranch, htext, hversions⟩ := hstart
  have hat : (⟨true, newId⟩ : Head) = ⟨!offBranch besideHeader, newId⟩ := by rw [hbranch]; rfl
  obtain ⟨u, e, c, text, hrun, -, -, hat, hread, hregex, hsulong⟩ :=
    updateImports_default hshared (hpath ▸ smallRepository_isRepository) hat htext
      ⟨oldId, hversions "regex" (by decide), hid⟩ (hversions "sulong" (by decide))
  obtain rfl : c = newId := congrArg Head.commit hat
  exact ⟨e, _, text, hrun, hread, hregex, hsulong⟩

end SuiteGate.Imports
