import SuiteGate.Disk.Planting
import SuiteGate.Proofs.Imports.Exchanges
import SuiteGate.Proofs.Imports.Rounds
/-!
# Which versions an update leaves behind

An update is a series of stages (`Request.stages`, `updateImports_eq_forM`): the overlays, and a
round for each requested import with the headers behind that of their import.  It gets through some
of them (`Op.completed`) before one fails.

The two suites of the language framework are asked for together, and the round of one of them comes
before that of the other (`round_sulong_after`).  The headline is `updateImports_versions`: each of
the two is recorded at the new commit exactly if its round was completed.  So an update that
succeeds leaves them at one commit, and an update that fails between the two rounds does not
(`apart_small`).
-/

namespace SuiteGate.Imports

/-! ### Stages -/

/-- What an update of imports does one after the other. -/
inductive Stage where
  | overlays
  | round (name : String)
  | headers
deriving DecidableEq, Repr

/-- The operation of a stage. -/
def Stage.op (runner : Runner) (s : Suite) : Stage → Op Unit
  | overlays => updateOverlays runner s
  | round name => discard <| updateImport runner s name s.config.imports.defaultRevision
  | headers => copyHeaders s

/-- The stages for an import. -/
def Stage.ofName (name : String) : List Stage :=
  .round name :: if name = headerImport then [.headers] else []

/-- The stages of a request. -/
def Request.stages (r : Request) : List Stage :=
  (if r.overlay then [.overlays] else []) ++ r.names.toList.flatMap Stage.ofName

section

variable (runner : Runner) (s : Suite)

theorem forM_ofName (name : String) :
    (Stage.ofName name).forM (Stage.op runner s) = (do
      discard <| updateImport runner s name s.config.imports.defaultRevision
      if name = headerImport then copyHeaders s) := by
  rw [Stage.ofName]
  change (Stage.op runner s (.round name) >>= fun _ => List.forM _ _) = _
  refine bind_congr fun _ => ?_
  split
  · exact bind_pure (copyHeaders s)
  · rfl

theorem updateNames_eq_forM (names : List String) :
    updateNames runner s names = (names.flatMap Stage.ofName).forM (Stage.op runner s) := by
  induction names with
  | nil => rfl
  | cons name names ih =>
    have hfirst := forM_ofName runner s name
    rw [List.flatMap_cons]
    refine Eq.trans ?_ List.forM_append.symm
    change _ = ((Stage.ofName name).forM (Stage.op runner s) >>= fun _ =>
      (names.flatMap Stage.ofName).forM (Stage.op runner s))
    rw [hfirst, ← ih]
    rfl

/-- **An update is the series of its stages.** -/
theorem updateImports_eq_forM (args : List String) :
    updateImports runner s args = (Request.expand args).stages.forM (Stage.op runner s) := by
  rw [updateImports, updateNames_eq_forM, Request.stages]
  split
  · change _ = (updateOverlays runner s >>= fun _ => List.forM _ _)
    rfl
  · rfl

end

/-! ### Requests -/

section

variable {args : List String} {name : String}

/-- The names that are asked for; no names ask for the framework. -/
def askedNames (args : List String) : List String :=
  if args.isEmpty then [Request.frameworkName] else args

/-- **Which imports are updated:** those that are named, and the two suites of the framework if it
or one of them is. -/
theorem mem_names_iff :
    name ∈ (Request.expand args).names ↔
      (name ∈ askedNames args ∧ name ≠ Request.overlayName ∧ name ≠ Request.frameworkName) ∨
        name ∈ Request.pair ∧ ∃ n ∈ Request.frameworkName :: Request.pair, n ∈ askedNames args := by
  rw [Request.expand, ← askedNames]
  generalize askedNames args = asked
  dsimp only
  have hnamed : ∀ n, n ∈ ((Std.ExtTreeSet.ofList asked).erase Request.overlayName).erase
      Request.frameworkName ↔
        n ∈ asked ∧ n ≠ Request.overlayName ∧ n ≠ Request.frameworkName := by
    simp
    grind
  generalize ((Std.ExtTreeSet.ofList asked).erase Request.overlayName).erase
    Request.frameworkName = named at hnamed ⊢
  have hboth : ((Std.ExtTreeSet.ofList asked).contains Request.frameworkName ||
      Request.pair.any named.contains) = true ↔
        ∃ n ∈ Request.frameworkName :: Request.pair, n ∈ asked := by
    simp [Request.pair, hnamed, Request.overlayName, Request.frameworkName]
  split
  · next h =>
    rw [Std.ExtTreeSet.mem_insertMany_list, hnamed, List.contains_iff_mem,
      and_iff_left (hboth.mp h)]
  · next h => rw [hnamed, or_iff_left fun hpair => h (hboth.mpr hpair.2)]

theorem mem_names (h : name ∈ (Request.expand args).names) :
    name ∈ args ∨ name ∈ Request.pair := by
  rw [mem_names_iff, askedNames] at h
  split at h
  · grind
  · grind

/-- **The two suites are asked for together.** -/
theorem pair_together :
    "regex" ∈ (Request.expand args).names ↔ "sulong" ∈ (Request.expand args).names := by
  simp only [mem_names_iff, Request.pair, Request.frameworkName, Request.overlayName]
  grind

theorem round_mem_ofName {other : String} : .round other ∈ Stage.ofName name ↔ other = name := by
  rw [Stage.ofName]
  split
  · simp
  · simp

theorem round_mem_stages :
    .round name ∈ (Request.expand args).stages ↔ name ∈ (Request.expand args).names := by
  simp only [Request.stages, List.mem_append, List.mem_flatMap, Std.ExtTreeSet.mem_toList,
    round_mem_ofName, exists_eq_right']
  split
  · simp
  · simp

/-- No round of `sulong` comes before one of `regex`, as the names are in order. -/
theorem stages_pairwise :
    (Request.expand args).stages.Pairwise fun a b =>
      ¬ (a = .round "sulong" ∧ b = .round "regex") := by
  rw [Request.stages, List.pairwise_append, List.pairwise_flatMap]
  refine ⟨?_, ⟨fun name _ => ?_, ?_⟩, ?_⟩
  · split
    · simp
    · simp
  · rw [Stage.ofName]
    split
    · simp
    · simp
  · refine Std.ExtTreeSet.ordered_toList.imp fun {a b} hlt x hx y hy => ?_
    rintro ⟨rfl, rfl⟩
    rw [← round_mem_ofName.mp hx, ← round_mem_ofName.mp hy] at hlt
    exact absurd hlt (by decide)
  · intro x hx y hy h
    split at hx
    · simp [h.1] at hx
    · cases hx

/-- **The round of one of the two suites comes before that of the other.** -/
theorem round_sulong_after {stages : List Stage} (h : stages <+: (Request.expand args).stages)
    (hsulong : .round "sulong" ∈ stages) : .round "regex" ∈ stages := by
  have hmem : Stage.round "regex" ∈ (Request.expand args).stages :=
    round_mem_stages.mpr (pair_together.mpr (round_mem_stages.mp (h.subset hsulong)))
  have hpairwise := @stages_pairwise args
  obtain ⟨rest, hrest⟩ := h
  rw [← hrest] at hmem hpairwise
  rcases List.mem_append.mp hmem with hmem | hmem
  · exact hmem
  · exact absurd ⟨rfl, rfl⟩ ((List.pairwise_append.mp hpairwise).2.2 _ hsulong _ hmem)

end

/-! ### The versions of the two suites -/

/-- What is assumed of the version control program and the checkouts: the commands of a round leave
the suite definition alone, the two suites share a checkout, which is always at the same commit when
it is asked, and what any checkout is at can be recorded. -/
structure Steady (runner : Runner) (s : Suite) (dir : Path) (tip : String) : Prop where
  leaves : ∀ (name : String) d, s.config.imports.checkouts[name]? = some d →
    Leaves runner s.git (s.path d) s.config.imports.defaultRevision (suiteFile s)
  shared : ∀ n ∈ Request.pair, s.config.imports.checkouts[n]? = some dir
  same : ∀ t, Printed runner s.git (s.path dir) t → t = tip
  recordable : ∀ (name : String) d t, s.config.imports.checkouts[name]? = some d →
    Printed runner s.git (s.path d) t → Recordable t.toList

/-- Only a round changes the text of the suite definition. -/
def LeavesToRounds (s : Suite) (stage : Stage) (before after : World) : Prop :=
  (∀ name, stage ≠ .round name) →
    after.disk.textAt after.cwd (suiteFile s) = before.disk.textAt before.cwd (suiteFile s)

/-- The suite definition records each of the two suites at one commit if its round is among the
completed stages, and at another one if it is not. -/
def Records (s : Suite) (new old : String) (done : List Stage) (w : World) : Prop :=
  ∃ text, w.disk.textAt w.cwd (suiteFile s) = .ok text ∧
    (∀ n : String, Unquoted n.toList → version? text n ≠ some "name") ∧
    ∀ n ∈ Request.pair, version? text n = some (if .round n ∈ done then new else old)

section

variable {runner : Runner} {s : Suite} {dir : Path} {tip old : String} {args : List String}
  {done : List Stage} {w w' : World}

theorem unquoted_of_mem_pair {n : String} (h : n ∈ Request.pair) : Unquoted n.toList := by
  have hall : ∀ n ∈ Request.pair, Unquoted n.toList := by decide
  exact hall n h

/-- What leaves the suite definition alone changes nothing that is recorded. -/
theorem Records.of_textAt (h : Records s tip old done w)
    (htext : w'.disk.textAt w'.cwd (suiteFile s) = w.disk.textAt w.cwd (suiteFile s)) :
    Records s tip old done w' := by
  obtain ⟨text, ht, hwords, hversions⟩ := h
  exact ⟨text, htext.trans ht, hwords, hversions⟩

/-- A completed stage that is not a round counts for nothing. -/
theorem Records.append {stage : Stage} (h : Records s tip old done w)
    (hstage : ∀ name, stage ≠ .round name) : Records s tip old (done ++ [stage]) w := by
  obtain ⟨text, ht, hwords, hversions⟩ := h
  refine ⟨text, ht, hwords, fun n hn => ?_⟩
  have hne : Stage.round n ≠ stage := (hstage n).symm
  simp [hversions n hn, hne]

theorem unquoted_of_mem_names {name : String} (hargs : ∀ n ∈ args, Unquoted n.toList)
    (h : name ∈ (Request.expand args).names) : Unquoted name.toList :=
  (mem_names h).elim (hargs name) unquoted_of_mem_pair

/-- A completed round changes the version of its import to the commit that was printed. -/
theorem Records.round (hsteady : Steady runner s dir tip) {name : String}
    (hname : Unquoted name.toList) (h : Records s tip old done w) {r : Except Fault String}
    (hrun : (updateImport runner s name s.config.imports.defaultRevision).run.run w = (r, w')) :
    Records s tip old (if r.isOk then done ++ [.round name] else done) w' := by
  obtain ⟨text, htext, hwords, hversions⟩ := h
  have hround := updateImport_textAt (hsteady.leaves name) htext hrun
  cases r with
  | error e => exact ⟨text, hround, hwords, hversions⟩
  | ok t =>
    obtain ⟨d, updated, hd, hprinted, hexchange, htext'⟩ := hround
    have ht := hsteady.recordable name d t hd hprinted
    have hself := version?_exchange_self ht.1 hexchange
    have hother := fun {other : String} (ho : Unquoted other.toList) (hne : other ≠ name) =>
      version?_exchange_of_ne hname ho hne ht (hwords name hname) hexchange
    refine ⟨updated, htext', fun n hn => ?_, fun n hn => ?_⟩
    · by_cases hne : n = name
      · subst hne
        rw [hself]
        rintro ⟨⟩
        exact ht.2 rfl
      · rw [hother hn hne]
        exact hwords n hn
    · by_cases hne : n = name
      · subst hne
        obtain rfl : d = dir := Option.some.inj (hd.symm.trans (hsteady.shared n hn))
        rw [hself, hsteady.same t hprinted]
        simp [Except.isOk, Except.toBool]
      · rw [hother (unquoted_of_mem_pair hn) hne, hversions n hn]
        simp [Except.isOk, Except.toBool, hne]

/-- A stage leaves each of the two suites recorded as it should be, completed or not. -/
theorem Records.stage (hsteady : Steady runner s dir tip) (hargs : ∀ n ∈ args, Unquoted n.toList)
    {stage : Stage} (hmem : stage ∈ (Request.expand args).stages)
    (hleaves : LeavesToRounds s stage w w') (h : Records s tip old done w) {r : Except Fault Unit}
    (hrun : (stage.op runner s).run.run w = (r, w')) :
    Records s tip old (if r.isOk then done ++ [stage] else done) w' := by
  -- a stage that is not a round leaves the text alone and counts for nothing
  have hother : (∀ name, stage ≠ .round name) →
      Records s tip old (if r.isOk then done ++ [stage] else done) w' := by
    intro hstage
    have hkept := h.of_textAt (hleaves hstage)
    split
    · exact hkept.append hstage
    · exact hkept
  cases stage with
  | overlays => exact hother (by simp)
  | headers => exact hother (by simp)
  | round name =>
    have hname := unquoted_of_mem_names hargs (round_mem_stages.mp hmem)
    rw [Stage.op, Op.run_discard] at hrun
    rcases hround : (updateImport runner s name s.config.imports.defaultRevision).run.run w
      with ⟨e | t, u⟩
    · rw [hround] at hrun
      obtain ⟨rfl, rfl⟩ := Prod.mk.inj hrun
      exact h.round hsteady hname hround
    · rw [hround] at hrun
      obtain ⟨rfl, rfl⟩ := Prod.mk.inj hrun
      exact h.round hsteady hname hround

/-- **The versions that an update leaves behind.**  Each of the two suites is recorded at the commit
of their checkout exactly if its round was completed.  The round of `sulong` is only completed
behind that of `regex`, so the two are apart exactly if the update ended between the two rounds;
that is with an error.  A name with a quote could reach across other entries, so there is none. -/
theorem updateImports_versions (hsteady : Steady runner s dir tip)
    (hargs : ∀ n ∈ args, Unquoted n.toList)
    (hothers : Op.Throughout (LeavesToRounds s) (Stage.op runner s) (Request.expand args).stages w)
    (hrecords : Records s tip old [] w) :
    let after := (updateImports runner s args).run.run w
    let done := Op.completed (Stage.op runner s) (Request.expand args).stages w
    ∃ text, after.2.disk.textAt after.2.cwd (suiteFile s) = .ok text ∧
      (∀ n ∈ Request.pair, version? text n = some (if .round n ∈ done then tip else old)) ∧
      (version? text "regex" ≠ version? text "sulong" ↔
        tip ≠ old ∧ .round "regex" ∈ done ∧ .round "sulong" ∉ done) ∧
      (after.1 = .ok () → version? text "regex" = version? text "sulong") := by
  intro after done
  have hkept : Records s tip old ([] ++ done)
      (((Request.expand args).stages.forM (Stage.op runner s)).run.run w).2 := by
    refine hothers.keeps (fun done stage hmem v v' hleaves hv hrun => ?_)
      (fun done stage hmem v v' e hleaves hv hrun => ?_) hrecords
    · exact hv.stage hsteady hargs hmem hleaves hrun
    · exact hv.stage hsteady hargs hmem hleaves hrun
  rw [← updateImports_eq_forM, List.nil_append] at hkept
  obtain ⟨text, htext, -, hversions⟩ := hkept
  have hregex := hversions "regex" (by decide)
  have hsulong := hversions "sulong" (by decide)
  have hafter : .round "sulong" ∈ done → .round "regex" ∈ done :=
    round_sulong_after (Op.completed_prefix _ _ w)
  refine ⟨text, htext, hversions, ?_, fun hok => ?_⟩
  · rw [hregex, hsulong]
    by_cases h₁ : .round "regex" ∈ done
    · by_cases h₂ : .round "sulong" ∈ done
      · simp [h₁, h₂]
      · simp [h₁, h₂]
    · simp [h₁, mt hafter h₁]
  · have hall : done = (Request.expand args).stages :=
      Op.completed_of_ok (updateImports_eq_forM runner s args ▸ hok)
    have htogether : .round "regex" ∈ done ↔ .round "sulong" ∈ done := by
      rw [hall, round_mem_stages, round_mem_stages, pair_together]
    simp only [hregex, hsulong, htogether]

end

/-! ### An update that ends between the two rounds -/

/-- A suite whose two imports of the framework share the checkout next to it. -/
def sharedSuite : Suite :=
  { config := { suite := { dir := ⟨"/s"⟩ } } }

/-- Its suite definition, with both imports at one commit. -/
def sharedWorld : World :=
  World.start ((Disk.empty ⟨10⟩).plant []
    [⟨⟨"s/mx.graalpython/suite.py"⟩,
        .file ("'name': 'regex', 'version': 'a0', ".toUTF8 ++
          "'name': 'sulong', 'version': 'a0'".toUTF8) false none⟩]) [] ⟨"/tmp"⟩ ∅

/-- Programs that name a newer commit, and fail to pull for a second time. -/
def pullsOnce : Runner := fun i w =>
  let again := i.args = ["pull"] ∧ w.calls.any fun c => c.invocation.args = ["pull"]
  ⟨w.disk, .ok ⟨some (if again then 1 else 0), "b1\n", ""⟩, ByteArray.empty, ByteArray.empty, []⟩

theorem eq_of_printed {tree : Path} {t : String}
    (h : Printed pullsOnce sharedSuite.git tree t) : t = "b1" := by
  obtain ⟨v, output, hanswer, rfl⟩ := h
  obtain ⟨houtcome, -⟩ := Runner.answer_eq_ok_iff.mp hanswer
  have htrim : Text.trim "b1\n" = "b1" := by decide +kernel
  rw [← Except.ok.inj houtcome]
  exact htrim

theorem pullsOnce_steady : Steady pullsOnce sharedSuite ⟨"../graal"⟩ "b1" where
  leaves _ _ _ _ _ _ := rfl
  shared := by decide +kernel
  same _ := eq_of_printed
  recordable _ _ _ _ h := by
    rw [eq_of_printed h]
    decide

/-- Only a text in which the word `name` stands behind itself can record it as a version. -/
theorem version?_ne_name {text name : String} (hname : Unquoted name.toList)
    (hwords : ∀ i < (wordsOf text.toList).length, (wordsOf text.toList)[i]? = some "name".toList →
      (wordsOf text.toList)[i + 6]? ≠ some "name".toList) : version? text name ≠ some "name" := by
  intro h
  obtain ⟨i, hentry, -⟩ := (version?_eq_some_iff hname).mp h
  have hends := hentry.ends
  exact hwords i (by omega) ((heads_iff (by omega)).mp hentry.heads).1 hentry.version

theorem sharedWorld_records : Records sharedSuite "b1" "a0" [] sharedWorld := by
  have htext : sharedWorld.disk.textAt sharedWorld.cwd (suiteFile sharedSuite) =
      .ok "'name': 'regex', 'version': 'a0', 'name': 'sulong', 'version': 'a0'" := by
    decide +kernel
  exact ⟨_, htext, fun n hn => version?_ne_name hn (by decide +kernel), by decide +kernel⟩

/-- **An update that fails between the two rounds leaves the two suites apart,** though they were at
one commit before and their checkout is at one commit all the time. -/
theorem apart_small :
    let before := "'name': 'regex', 'version': 'a0', 'name': 'sulong', 'version': 'a0'"
    let text := "'name': 'regex', 'version': 'b1', 'name': 'sulong', 'version': 'a0'"
    let after := (updateImports pullsOnce sharedSuite []).run.run sharedWorld
    Steady pullsOnce sharedSuite ⟨"../graal"⟩ "b1" ∧
      sharedWorld.disk.textAt [] (suiteFile sharedSuite) = .ok before ∧
      version? before "regex" = some "a0" ∧ version? before "sulong" = some "a0" ∧
      after.1 = .error (.error (.tool (.nonZeroExit "git pull" (some 1) ""))) ∧
      after.2.calls.map (fun c => c.invocation.args) =
        [["pull"], ["checkout", "--quiet", "origin/master"], ["rev-parse", "HEAD"], ["pull"]] ∧
      after.2.disk.textAt [] (suiteFile sharedSuite) = .ok text ∧
      version? text "regex" = some "b1" ∧ version? text "sulong" = some "a0" := by
  refine ⟨pullsOnce_steady, ?_⟩
  decide +kernel

/-- Of the update that fails to pull for a second time, the round of `regex` is completed and that
of `sulong` is not. -/
theorem updateImports_versions_apart :
    ∃ text, ((updateImports pullsOnce sharedSuite []).run.run sharedWorld).2.disk.textAt
        ((updateImports pullsOnce sharedSuite []).run.run sharedWorld).2.cwd
        (suiteFile sharedSuite) = .ok text ∧
      version? text "regex" = some "b1" ∧ version? text "sulong" = some "a0" := by
  have hstages : (Request.expand []).stages =
      [.round "regex", .round "sulong", .headers] := by
    decide +kernel
  have hdone :
      Op.completed (Stage.op pullsOnce sharedSuite) (Request.expand []).stages sharedWorld =
      [.round "regex"] := by
    decide +kernel
  have hothers : Op.Throughout (LeavesToRounds sharedSuite) (Stage.op pullsOnce sharedSuite)
      (Request.expand []).stages sharedWorld := by
    rw [hstages]
    refine ⟨fun h => absurd rfl (h _), fun _ => ⟨fun h => absurd rfl (h _), fun hok => ?_⟩⟩
    -- the second round is not completed, so the headers are not copied
    exact absurd hok (by decide +kernel)
  obtain ⟨text, htext, hversions, -⟩ :=
    updateImports_versions pullsOnce_steady (by simp) hothers sharedWorld_records
  rw [hdone] at hversions
  exact ⟨text, htext, hversions "regex" (by decide), hversions "sulong" (by decide)⟩

end SuiteGate.Imports
