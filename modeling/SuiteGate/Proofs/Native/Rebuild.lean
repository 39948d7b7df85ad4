import SuiteGate.Native.Capi
import SuiteGate.Proofs.Disk.Staging
import SuiteGate.Proofs.Python.Runs
import SuiteGate.Scripted.Runner
/-!
# Rebuilding from scratch

A build of the C API project that is not needed does nothing, and one that is needed keeps nothing
of an earlier one (`Rebuilt`).  The headline is `buildIfNeeded_spec`.

Cleaning frees the trees of headers and outputs (`separate_of_clean`), staging brings files to the
headers only (`stageHeaders_spec`, `Prepared`), and from then on nothing but tools makes files
(`runSetup_spec`).  Both trees have to be `Separate` all the way: a path that is mended by a
directory made on its way leads to old outputs again (`modules_gone_or_output_back`).
-/

namespace SuiteGate.Capi

open Disk

/-! ### Cleaning -/

/-- Cleaning the first path fails, or goes on with the others when the path leads nowhere. -/
theorem clean_cons (d : Disk) (cwd : List Name) (p : Path) (ps : List Path) :
    (∃ e d', Staleness.clean d cwd (p :: ps) = (.error e, d') ∧
        (d' = d ∨ d.removeDirAll cwd p = (.error e, d'))) ∨
      ∃ d', d.Freed cwd p d' ∧
        Staleness.clean d cwd (p :: ps) = Staleness.clean d' cwd ps := by
  rw [Staleness.clean]
  cases hdir : d.isDir cwd p with
  | true =>
    obtain ⟨hok, -⟩ := removeDirAll_spec d cwd p
    simp only [if_true]
    rcases hr : d.removeDirAll cwd p with ⟨e | u, d'⟩
    · exact .inl ⟨e, d', rfl, .inr rfl⟩
    · rw [hr] at hok
      exact .inr ⟨d', .inr (hok rfl), rfl⟩
  | false =>
    cases hexists : d.pathExists cwd p with
    | false => exact .inr ⟨d, .inl ⟨rfl, hexists⟩, rfl⟩
    | true =>
      -- a file, or a link to one
      simp only [Bool.false_eq_true, if_false, if_true]
      cases hr : d.removeFile cwd p with
      | error e => exact .inl ⟨e, d, rfl, .inl rfl⟩
      | ok d' => exact .inr ⟨d', .inr (removeFile_spec hr), rfl⟩

/-- **After cleaning** both paths lead nowhere, and still to trees of their own. -/
theorem separate_of_clean {d d' : Disk} {cwd : List Name} {p q : Path} (hsep : d.Separate cwd p q)
    (h : Staleness.clean d cwd [p, q] = (.ok (), d')) :
    d'.Separate cwd p q ∧ d'.Within d ∧ d'.pathExists cwd p = false ∧
      d'.pathExists cwd q = false := by
  rcases clean_cons d cwd p [q] with ⟨e, d₁, he, -⟩ | ⟨d₁, hfreed₁, h₁⟩
  · rw [he] at h
    simp at h
  rcases clean_cons d₁ cwd q [] with ⟨e, d₂, he, -⟩ | ⟨d₂, hfreed₂, h₂⟩
  · rw [h₁, he] at h
    simp at h
  obtain rfl : d₂ = d' := by
    rw [h₁, h₂, Staleness.clean] at h
    simpa using h
  obtain ⟨hsep₁, hp⟩ := hsep.of_freed hfreed₁
  obtain ⟨hsep₂, hq⟩ := hsep₁.symm.of_freed hfreed₂
  exact ⟨hsep₂.symm, hfreed₂.pruned.within.trans hfreed₁.pruned.within,
    pathExists_eq_false_of_within hfreed₂.pruned.within hp, hq⟩

/-! ### Before the tools run -/

/-- The name of the directory of modules. -/
def modulesName : Name := ⟨"modules", by decide⟩

/-- The name of the scratch directory. -/
def scratchName : Name := ⟨"mxbuild_temp", by decide⟩

/-- What is staged: the files of the project's headers, and the extra headers under their names. -/
def IsHeader (s : Suite) (d : Disk) (cwd : List Name) (rel : List Name) : Prop :=
  (∃ n, d.Reaches cwd (s.config.capiSource.child "include") rel n ∧ n.isDir = false) ∨
    ∃ x : Name, rel = [x] ∧
      ∃ header ∈ s.config.capi.extraHeaders, (s.path header).fileName? = some x.text

/-- The steps of a build before the setup script is run. -/
def prepare (s : Suite) : Op Unit := do
  stageHeaders s
  Op.makeDirs (modulesDir s)
  Op.makeDirs (scratchDir s)

theorem build_eq (runner : Runner) (s : Suite) :
    build runner s = prepare s >>= fun _ => runSetup runner s := by
  simp [build, prepare]

/-- Only directories are reached from a path. -/
def OnlyDirs (d : Disk) (cwd : List Name) (p : Path) : Prop :=
  ∀ rel n, d.Reaches cwd p rel n → n.isDir = true

theorem onlyDirs_of_missing {d : Disk} {cwd : List Name} {p : Path}
    (h : d.pathExists cwd p = false) : OnlyDirs d cwd p := by
  rintro rel n ⟨top, htop, -⟩
  have hexists := pathExists_iff.mpr ⟨top, htop⟩
  simp [h] at hexists

/-- A disk on which headers may have been staged: both trees were free in a base. -/
structure Prepared (s : Suite) (cwd : List Name) (Header : List Name → Prop) (base d : Disk) :
    Prop where
  separate : base.Separate cwd s.config.capiHeaders s.config.capiHome
  headers_missing : base.pathExists cwd s.config.capiHeaders = false
  home_missing : base.pathExists cwd s.config.capiHome = false
  staged : Staged base cwd s.config.capiHeaders Header d

section

variable {s : Suite} {cwd : List Name} {Header : List Name → Prop} {base d d' : Disk}

theorem Prepared.headers_free (h : Prepared s cwd Header base d) :
    ∀ tree ∈ (base.wayTo cwd true s.config.capiHeaders).goal, base.kindAt tree = none :=
  h.separate.left_settled.kindAt_goal h.headers_missing

/-- **The outputs are gone:** staging headers brings nothing but directories there. -/
theorem Prepared.onlyDirs (h : Prepared s cwd Header base d) :
    OnlyDirs d cwd s.config.capiHome := fun _ _ hr =>
  h.staged.isDir_of_reaches h.separate.right_avoids h.separate.left_avoids
    (h.separate.right_settled.kindAt_goal h.home_missing) hr

/-- The headers are the staged ones. -/
theorem Prepared.header_of_reaches (h : Prepared s cwd Header base d) {rel : List Name} {n : Node}
    (hr : d.Reaches cwd s.config.capiHeaders rel n) (hn : n.isDir = false) : Header rel := by
  obtain ⟨place, top, hl, -, hget⟩ := hr.exists_place
  -- the base is free below this place, so what stands there was staged
  have hgoal := h.staged.goal_of_locate h.headers_free hl
  rcases h.staged.inside place hgoal rel with hnone | hdir | ⟨hheader, -⟩
  · simp [kindAt_of_get? hget] at hnone
  · rw [kindAt_of_get? hget, Option.some.injEq] at hdir
    rw [Node.isDir_iff.mpr ⟨_, hdir⟩] at hn
    simp at hn
  · exact hheader

theorem Prepared.grows (h : Prepared s cwd Header base d) (hg : d.Grows d') :
    Prepared s cwd Header base d' :=
  ⟨h.separate, h.headers_missing, h.home_missing, h.staged.grows hg⟩

end

/-- **Staging the headers** fails with nothing new on the disk, or goes on from a base on which
both trees are free. -/
theorem stageHeaders_spec (s : Suite) (w : World) {d₀ : Disk} (hd₀ : w.disk.Within d₀)
    (hsep : w.disk.Separate w.cwd s.config.capiHeaders s.config.capiHome)
    (hheaders : w.disk.pathExists w.cwd s.config.capiHeaders = false)
    (hhome : w.disk.pathExists w.cwd s.config.capiHome = false) :
    (∃ e d, (stageHeaders s).run.run w = (.error e, { w with disk := d }) ∧
        d.Within w.disk) ∨
      ∃ base d, ((stageHeaders s).run.run w).2 = { w with disk := d } ∧
        Prepared s w.cwd (IsHeader s d₀ w.cwd) base d := by
  have hrun : (stageHeaders s).run.run w =
      ((Op.removeTree s.config.capiHeaders >>= fun _ =>
        discard (Op.copyTree (s.config.capiSource.child "include") s.config.capiHeaders) >>=
          fun _ => Op.copyAllInto (s.config.capi.extraHeaders.map s.path)
            s.config.capiHeaders).run.run w) := rfl
  rw [hrun, Op.run_bind, Op.removeTree, Op.run_changePartly]
  -- the headers are removed once more, and what that leaves is the base
  obtain ⟨hok, herror⟩ := removeTree_spec w.disk w.cwd s.config.capiHeaders
  rcases hr : w.disk.removeTree w.cwd s.config.capiHeaders with ⟨e | u, base⟩
  · rw [hr] at herror
    refine .inl ⟨_, base, rfl, ?_⟩
    rcases herror e rfl with rfl | hemptied
    · exact .refl _
    · exact hemptied.within
  · rw [hr] at hok
    have hfreed : w.disk.Freed w.cwd s.config.capiHeaders base := by
      rcases hok rfl with ⟨-, hsame⟩ | herased
      · exact .inl ⟨hsame, hheaders⟩
      · exact .inr herased
    obtain ⟨hsep', hheaders'⟩ := hsep.of_freed hfreed
    have hhome' := pathExists_eq_false_of_within hfreed.pruned.within hhome
    have hstart : Prepared s w.cwd (IsHeader s d₀ w.cwd) base base :=
      ⟨hsep', hheaders', hhome', .start (hsep'.left_settled.kindAt_goal hheaders')⟩
    have hcopied : Prepared s w.cwd (IsHeader s d₀ w.cwd) base
        (base.copyTree w.cwd (s.config.capiSource.child "include") s.config.capiHeaders).2 := by
      refine ⟨hsep', hheaders', hhome', hstart.staged.copyTree hstart.headers_free ?_⟩
      intro rel n hreach hn _
      -- a header that is copied was there from the start
      obtain ⟨m, hm, hk⟩ := hreach.of_within (hfreed.pruned.within.trans hd₀)
      exact .inl ⟨m, hm, (Node.isDir_eq_of_kind_eq hk).trans hn⟩
    refine .inr ⟨base, Op.Keeps.after
      (congrArg Prod.snd (Op.run_discard_copyTree ..)) hcopied fun _ => .forM ?_⟩
    intro file hfile
    refine .changePartly fun d hd => ?_
    refine ⟨hsep', hheaders', hhome', hd.staged.copyInto hd.headers_free fun x hx => .inr ?_⟩
    obtain ⟨header, hheader, rfl⟩ := List.mem_map.mp hfile
    exact ⟨x, rfl, header, hheader, hx⟩

/-- **Before the tools run** the outputs are gone.  If all went well there is a directory for the
modules, and every header is a staged one. -/
theorem prepare_spec (s : Suite) (w : World) {d₀ : Disk} (hd₀ : w.disk.Within d₀)
    (hsep : w.disk.Separate w.cwd s.config.capiHeaders s.config.capiHome)
    (hheaders : w.disk.pathExists w.cwd s.config.capiHeaders = false)
    (hhome : w.disk.pathExists w.cwd s.config.capiHome = false) :
    ∃ d, ((prepare s).run.run w).2 = { w with disk := d } ∧ OnlyDirs d w.cwd s.config.capiHome ∧
      (((prepare s).run.run w).1 = .ok () → d.isDir w.cwd (modulesDir s) = true ∧
        ∀ rel n, d.Reaches w.cwd s.config.capiHeaders rel n → n.isDir = false →
          IsHeader s d₀ w.cwd rel) := by
  rw [prepare, Op.run_bind]
  rcases stageHeaders_spec s w hd₀ hsep hheaders hhome with
    ⟨e, d, hrun, hwithin⟩ | ⟨base, d, hrun, hprep⟩
  · -- nothing was staged, and the outputs are still missing
    rw [hrun]
    exact ⟨d, rfl, onlyDirs_of_missing (pathExists_eq_false_of_within hwithin hhome), by simp⟩
  · rcases hstage : (stageHeaders s).run.run w with ⟨e | u, w₁⟩
    · rw [hstage] at hrun
      exact ⟨d, hrun, hprep.onlyDirs, by simp⟩
    · rw [hstage] at hrun
      obtain rfl : w₁ = { w with disk := d } := hrun
      simp only [Op.run_bind, Op.makeDirs, Op.run_changePartly]
      rcases hmodules : d.makeDirAll w.cwd (modulesDir s) with ⟨e | u, d₁⟩
      · have hprep₁ := hprep.grows (makeDirAll_grows d w.cwd (modulesDir s))
        rw [hmodules] at hprep₁
        exact ⟨d₁, rfl, hprep₁.onlyDirs, by simp [Except.mapError]⟩
      · have hprep₁ := hprep.grows (makeDirAll_grows d w.cwd (modulesDir s))
        rw [hmodules] at hprep₁
        have hdir := isDir_of_makeDirAll (Path.isEmpty_text_child _ modulesName) hmodules
        have hgrows := makeDirAll_grows d₁ w.cwd (scratchDir s)
        have hprep₂ := hprep₁.grows hgrows
        exact ⟨_, rfl, hprep₂.onlyDirs, fun _ =>
          ⟨isDir_of_grows hgrows hdir, fun rel n hr hn => hprep₂.header_of_reaches hr hn⟩⟩

/-! ### The setup script -/

/-- The options of the run of the setup script. -/
def setupOptions (s : Suite) : Python.RunOptions :=
  { overrides := setupOverrides s, cwd := some (scratchDir s) }

/-- The tools of a build: the query for the class path and the setup script. -/
def tools (s : Suite) : List (Invocation → Prop) :=
  [s.buildTool.AsksClasspath, Python.Launches s (setupArgs s) (setupOptions s)]

section

variable {runner : Runner} {s : Suite} {w w₁ : World}

/-- After a run that succeeded the scratch directory is removed. -/
theorem runSetup_of_ok {output : ToolOutput}
    (h : (Python.run runner s (setupArgs s) (setupOptions s)).run.run w = (.ok output, w₁)) :
    (runSetup runner s).run.run w = (Op.removeTree (scratchDir s)).run.run w₁ := by
  rw [setupOptions] at h
  rw [runSetup, Op.run_bind, Op.run_attempt, h]
  simp only [Op.run_bind]
  rcases (Op.removeTree (scratchDir s)).run.run w₁ with ⟨e | u, w₂⟩ <;> rfl

/-- After a run that failed the build fails, and at most the scratch directory is removed. -/
theorem runSetup_of_error {fault : Fault}
    (h : (Python.run runner s (setupArgs s) (setupOptions s)).run.run w = (.error fault, w₁)) :
    ∃ fault' d, (runSetup runner s).run.run w = (.error fault', { w₁ with disk := d }) ∧
      d.Within w₁.disk := by
  rw [setupOptions] at h
  rw [runSetup, Op.run_bind, Op.run_attempt, h]
  cases fault with
  | error e =>
    have hwithin := removeTree_within w₁.disk w₁.cwd (scratchDir s)
    simp only [Op.removeTree, Op.run_bind, Op.run_changePartly]
    generalize w₁.disk.removeTree w₁.cwd (scratchDir s) = r at hwithin ⊢
    obtain ⟨e' | u, d⟩ := r
    · exact ⟨_, d, rfl, hwithin⟩
    · exact ⟨_, d, rfl, hwithin⟩
  | panic => exact ⟨_, w₁.disk, rfl, .refl _⟩

end

/-- **Running the setup script:** the tools run, and after them only the scratch directory is
removed. -/
theorem runSetup_spec (runner : Runner) (s : Suite) (w : World) :
    ∃ cs w₁, Runs runner w cs w₁ ∧
      ((runSetup runner s).run.run w).2.disk.Within w₁.disk ∧
      ((runSetup runner s).run.run w).2.cwd = w₁.cwd ∧
      ((runSetup runner s).run.run w).2.calls = w₁.calls ∧
      (((runSetup runner s).run.run w).1 = .ok () →
        List.Forall₂ (fun c tool => tool c.invocation) cs (tools s) ∧
          ∀ rel n, ¬ ((runSetup runner s).run.run w).2.disk.Reaches w.cwd s.config.capiHome
            (scratchName :: rel) n) := by
  obtain ⟨cs, hruns, htools⟩ := Python.runs_run runner s (setupArgs s) (setupOptions s) w
  refine ⟨cs, _, hruns, ?_⟩
  rcases hrun : (Python.run runner s (setupArgs s) (setupOptions s)).run.run w with
    ⟨fault | output, w₁⟩
  · obtain ⟨fault', d, hsetup, hwithin⟩ := runSetup_of_error hrun
    rw [hsetup]
    exact ⟨hwithin, rfl, rfl, by simp⟩
  · rw [hrun] at htools hruns
    have hcwd : w₁.cwd = w.cwd := hruns.cwd_eq
    rw [runSetup_of_ok hrun, Op.removeTree, Op.run_changePartly]
    refine ⟨removeTree_within w₁.disk w₁.cwd (scratchDir s), rfl, rfl, fun h => ?_⟩
    have hgone : (w₁.disk.removeTree w₁.cwd (scratchDir s)).1 = .ok () := by
      rcases hr : (w₁.disk.removeTree w₁.cwd (scratchDir s)).1 with e | u
      · rw [hr] at h
        cases h
      · rfl
    rw [← hcwd]
    exact ⟨(htools output rfl).1,
      not_reaches_of_removeTree (p := s.config.capiHome) (x := scratchName) (by decide) hgone⟩

/-! ### The whole build -/

theorem run_needsBuild (s : Suite) (w : World) :
    (needsBuild s).run.run w =
      ((Staleness.check w.disk w.cwd s.config.capiSource s.config.capiHome).mapError
        fun e => .error (.staleness e), w) := by
  rw [needsBuild, Op.run_bind, Op.run_ask]
  exact Op.run_ofExcept _ _

/-- A build is needed, or nothing is to be done. -/
theorem stale_or_idle (s : Suite) (w : World) :
    (∃ v, Staleness.check w.disk w.cwd s.config.capiSource s.config.capiHome = .ok v ∧
        v.isStale = true) ∨
      ∀ v, ((needsBuild s).run.run w).1 = .ok v → v = .upToDate := by
  rw [run_needsBuild]
  cases hc : Staleness.check w.disk w.cwd s.config.capiSource s.config.capiHome with
  | error e => exact .inr fun v h => nomatch h
  | ok v =>
    cases v with
    | noOutput dir => exact .inl ⟨_, rfl, rfl⟩
    | outdated newest oldest => exact .inl ⟨_, rfl, rfl⟩
    | upToDate => exact .inr fun v h => (Except.ok.inj h).symm

/-- **Nothing is done** if the outputs are up to date or cannot be compared with the sources. -/
theorem buildIfNeeded_of_not_stale {runner : Runner} {s : Suite} {w : World}
    (h : ∀ v, ((needsBuild s).run.run w).1 = .ok v → v = .upToDate) :
    (buildIfNeeded runner s).run.run w =
      (((needsBuild s).run.run w).1.map fun _ => false, w) := by
  rw [buildIfNeeded, Op.run_bind]
  rw [run_needsBuild] at h ⊢
  cases hc : Staleness.check w.disk w.cwd s.config.capiSource s.config.capiHome with
  | error e => rfl
  | ok v =>
    rw [hc] at h
    obtain rfl := h v rfl
    rfl

/-- A build that is not needed was found to be up to date. -/
theorem check_of_buildIfNeeded_eq_false {runner : Runner} {s : Suite} {w : World}
    (h : ((buildIfNeeded runner s).run.run w).1 = .ok false) :
    Staleness.check w.disk w.cwd s.config.capiSource s.config.capiHome = .ok .upToDate := by
  rw [buildIfNeeded, Op.run_bind, run_needsBuild] at h
  cases hc : Staleness.check w.disk w.cwd s.config.capiSource s.config.capiHome with
  | error e =>
    rw [hc] at h
    simp [Except.mapError] at h
  | ok v =>
    rw [hc] at h
    cases hv : v.isStale with
    | true =>
      simp only [Except.mapError, hv, if_true, Op.run_bind, Op.run_pure] at h
      split at h
      · split at h <;> simp at h
      · simp at h
    | false =>
      cases v with
      | upToDate => rfl
      | noOutput dir => simp [Staleness.Verdict.isStale] at hv
      | outdated newest oldest => simp [Staleness.Verdict.isStale] at hv

/-- **A rebuild** fails to clean, or goes on with the outputs gone; then only tools change the
disk, but for the scratch directory that is removed in the end. -/
theorem rebuild_spec (runner : Runner) (s : Suite) (w : World) {v : Staleness.Verdict}
    (hsep : w.disk.Separate w.cwd s.config.capiHeaders s.config.capiHome)
    (hcheck : Staleness.check w.disk w.cwd s.config.capiSource s.config.capiHome = .ok v)
    (hv : v.isStale = true) :
    (∃ e d, (buildIfNeeded runner s).run.run w = (.error (.error (.io e)), { w with disk := d }) ∧
        Staleness.clean w.disk w.cwd [s.config.capiHeaders, s.config.capiHome] = (.error e, d)) ∨
      ∃ d cs w₁, OnlyDirs d w.cwd s.config.capiHome ∧ Runs runner { w with disk := d } cs w₁ ∧
        ((buildIfNeeded runner s).run.run w).2.disk.Within w₁.disk ∧
        ((buildIfNeeded runner s).run.run w).2.cwd = w.cwd ∧
        ((buildIfNeeded runner s).run.run w).2.calls = w₁.calls ∧
        (((buildIfNeeded runner s).run.run w).1 = .ok true →
          d.isDir w.cwd (modulesDir s) = true ∧
          (∀ rel n, d.Reaches w.cwd s.config.capiHeaders rel n → n.isDir = false →
            IsHeader s w.disk w.cwd rel) ∧
          List.Forall₂ (fun c tool => tool c.invocation) cs (tools s) ∧
            ∀ rel n, ¬ ((buildIfNeeded runner s).run.run w).2.disk.Reaches w.cwd
              s.config.capiHome (scratchName :: rel) n) := by
  rw [buildIfNeeded, Op.run_bind, run_needsBuild, hcheck]
  simp only [Except.mapError, hv, if_true]
  rw [Op.run_bind, clean, Op.run_changePartly]
  rcases hclean : Staleness.clean w.disk w.cwd [s.config.capiHeaders, s.config.capiHome] with
    ⟨e | u, d₁⟩
  · exact .inl ⟨e, d₁, rfl, rfl⟩
  · obtain ⟨hsep₁, hwithin, hheaders, hhome⟩ := separate_of_clean hsep hclean
    obtain ⟨d, hprep, hdirs, hready⟩ :=
      prepare_spec s { w with disk := d₁ } hwithin hsep₁ hheaders hhome
    refine .inr ⟨d, ?_⟩
    simp only [Except.mapError, Op.run_bind, Op.run_pure, build_eq]
    rcases hrun : (prepare s).run.run { w with disk := d₁ } with ⟨e | u', w₂⟩
    · rw [hrun] at hprep
      obtain rfl : w₂ = { w with disk := d } := hprep
      exact ⟨[], _, hdirs, .refl _, .refl _, rfl, rfl, by simp⟩
    · rw [hrun] at hprep hready
      obtain rfl : w₂ = { w with disk := d } := hprep
      obtain ⟨hmodules, hstaged⟩ := hready rfl
      obtain ⟨cs, w₃, hruns, hdisk, hcwd, hcalls, hok⟩ :=
        runSetup_spec runner s { w with disk := d }
      have hcwd := hcwd.trans hruns.cwd_eq
      dsimp only
      rcases hsetup : (runSetup runner s).run.run { w with disk := d } with ⟨e | u'', w₄⟩
      · rw [hsetup] at hdisk hcwd hcalls
        exact ⟨cs, w₃, hdirs, hruns, hdisk, hcwd, hcalls, by simp⟩
      · rw [hsetup] at hdisk hcwd hcalls hok
        exact ⟨cs, w₃, hdirs, hruns, hdisk, hcwd, hcalls, fun _ =>
          ⟨hmodules, hstaged, (hok rfl).1, (hok rfl).2⟩⟩

/-! ### What a rebuild leaves -/

/-- At the end of a path and some names there is something of the given kind. -/
def Shows (cwd : List Name) (p : Path) (rel : List Name) (k : Kind) (d : Disk) : Prop :=
  ∃ n, d.Reaches cwd p rel n ∧ n.kind = k

/-- **What a rebuild leaves:** files among the outputs, and among the headers but for the staged
ones, came about in the runs of the two tools.  The scratch directory is gone.  The modules had a
directory when the first tool started, and the second one found what the first one had left. -/
structure Rebuilt (runner : Runner) (s : Suite) (w w' : World) : Prop where
  outputs : ∀ rel n, w'.disk.Reaches w.cwd s.config.capiHome rel n → n.isDir = false →
    CameAbout runner w w' (Shows w.cwd s.config.capiHome rel n.kind)
  scratch : ∀ rel n, ¬ w'.disk.Reaches w.cwd s.config.capiHome (scratchName :: rel) n
  modules : ∃ query setup v, w'.calls = w.calls ++ [query, setup] ∧
    s.buildTool.AsksClasspath query.invocation ∧
    Python.Launches s (setupArgs s) (setupOptions s) setup.invocation ∧
    query.disk.isDir w.cwd (modulesDir s) = true ∧ v.disk = query.disk ∧
    setup.disk = (runner query.invocation v).disk
  headers : ∀ rel n, w'.disk.Reaches w.cwd s.config.capiHeaders rel n → n.isDir = false →
    IsHeader s w.disk w.cwd rel ∨
      CameAbout runner w w' (Shows w.cwd s.config.capiHeaders rel n.kind)

section

variable {runner : Runner} {s : Suite} {w w' w₁ : World} {d : Disk} {cs : List Call}
  {cwd : List Name} {p : Path} {rel : List Name} {n : Node}

theorem not_shows_of_onlyDirs (h : OnlyDirs d cwd p) (hn : n.isDir = false) :
    ¬ Shows cwd p rel n.kind d := by
  rintro ⟨m, hm, hk⟩
  simp [← Node.isDir_eq_of_kind_eq hk, h rel m hm] at hn

theorem Shows.of_within {d d' : Disk} {k : Kind} (h : d'.Within d) (hs : Shows cwd p rel k d') :
    Shows cwd p rel k d := by
  obtain ⟨n, hn, rfl⟩ := hs
  obtain ⟨m, hm, hk⟩ := hn.of_within h
  exact ⟨m, hm, hk⟩

/-- What was not there before the tools ran came about in one of their runs. -/
theorem cameAbout_of_runs (hruns : Runs runner { w with disk := d } cs w₁)
    (hwithin : w'.disk.Within w₁.disk) (hcalls : w'.calls = w₁.calls)
    (hbefore : ¬ Shows cwd p rel n.kind d) (h : w'.disk.Reaches cwd p rel n) :
    CameAbout runner w w' (Shows cwd p rel n.kind) := by
  have hshown : Shows cwd p rel n.kind w'.disk := ⟨n, h, rfl⟩
  obtain ⟨i, v, hcwd, hpre, hlast, hnew⟩ :=
    exists_call_of_runs hruns hbefore (hshown.of_within hwithin)
  exact ⟨i, v, hcwd, hpre, hcalls ▸ hlast, hnew⟩

/-- Two tools were run one after the other, the second on what the first had left. -/
theorem exists_of_runs_tools (hruns : Runs runner w cs w')
    (htools : List.Forall₂ (fun c tool => tool c.invocation) cs (tools s)) :
    ∃ query setup v, cs = [query, setup] ∧ s.buildTool.AsksClasspath query.invocation ∧
      Python.Launches s (setupArgs s) (setupOptions s) setup.invocation ∧
      query.disk = w.disk ∧ v.disk = query.disk ∧
      setup.disk = (runner query.invocation v).disk := by
  rw [tools] at htools
  cases htools with
  | cons hquery htools =>
    cases htools with
    | cons hsetup htools =>
      cases htools
      cases hruns with
      | call i hd _ _ hruns =>
        cases hruns with
        | call j hd' _ _ hruns =>
          rw [Runs.snd_run] at hd'
          exact ⟨_, _, _, rfl, hquery, hsetup, hd, rfl, hd'⟩

end

/-- **A build of the C API project** does nothing if the outputs are up to date or cannot be
compared with the sources.  If it builds, it builds from scratch, as long as headers and outputs
are trees of their own. -/
theorem buildIfNeeded_spec (runner : Runner) (s : Suite) (w : World) :
    ((∀ v, ((needsBuild s).run.run w).1 = .ok v → v = .upToDate) →
      (buildIfNeeded runner s).run.run w =
        (((needsBuild s).run.run w).1.map fun _ => false, w)) ∧
    (w.disk.Separate w.cwd s.config.capiHeaders s.config.capiHome → ∀ w',
      (buildIfNeeded runner s).run.run w = (.ok true, w') → Rebuilt runner s w w') := by
  refine ⟨buildIfNeeded_of_not_stale, fun hsep w' h => ?_⟩
  obtain ⟨v, hcheck, hv⟩ : ∃ v, Staleness.check w.disk w.cwd s.config.capiSource
      s.config.capiHome = .ok v ∧ v.isStale = true := by
    rcases stale_or_idle s w with hstale | hidle
    · exact hstale
    · rw [buildIfNeeded_of_not_stale hidle] at h
      cases hneeds : ((needsBuild s).run.run w).1 with
      | error e => rw [hneeds] at h; cases h
      | ok v => rw [hneeds] at h; cases h
  rcases rebuild_spec runner s w hsep hcheck hv with
    ⟨e, d, hfails, -⟩ | ⟨d, cs, w₁, hdirs, hruns, hwithin, -, hcalls, hbuilt⟩
  · rw [hfails] at h
    cases h
  · rw [h] at hwithin hcalls hbuilt
    obtain ⟨hmodules, hheaders, htools, hscratch⟩ := hbuilt rfl
    obtain ⟨query, setup, v, rfl, hquery, hsetup, hd, hv, hsecond⟩ :=
      exists_of_runs_tools hruns htools
    refine ⟨fun rel n hr hn => ?_, hscratch, ?_, fun rel n hr hn => ?_⟩
    · exact cameAbout_of_runs hruns hwithin hcalls (not_shows_of_onlyDirs hdirs hn) hr
    · have hfirst : query.disk.isDir w.cwd (modulesDir s) = true := hd.symm ▸ hmodules
      exact ⟨query, setup, v, hcalls.trans hruns.calls_eq, hquery, hsetup, hfirst, hv, hsecond⟩
    · -- the headers may have been staged before the tools ran
      by_cases hbefore : Shows w.cwd s.config.capiHeaders rel n.kind d
      · obtain ⟨m, hm, hk⟩ := hbefore
        exact .inl (hheaders rel m hm ((Node.isDir_eq_of_kind_eq hk).trans hn))
      · exact .inr (cameAbout_of_runs hruns hwithin hcalls hbefore hr)

/-! ### A small suite -/

/-- A suite at the root of the disk. -/
def smallSuite (headers output : Path) : Suite :=
  { config :=
      { suite := { dir := ⟨"/"⟩ }
        capi := { sourceDir := ⟨"s"⟩, headersDir := headers, outputDir := output } } }

/-- A header among the sources, and an output older than it. -/
def smallWorld : World :=
  World.start ((Disk.empty ⟨10⟩).plant []
    [⟨⟨"s/include/a.h"⟩, .file ByteArray.empty false (some ⟨2⟩)⟩,
      ⟨⟨"o/old"⟩, .file ByteArray.empty false (some ⟨1⟩)⟩]) [] ⟨"/tmp"⟩ ∅

/-- Tools that make or remove some files: first the query for the class path, then the setup
script, which ends with an exit code. -/
def smallTools (query setup : List Planting) (code : ℤ) : Runner :=
  Scripted.runner []
    [{ pattern := "classpath", changes := query, output := ⟨some 0, "cp\n", ""⟩ },
      { pattern := "setup.py", changes := setup, output := ⟨some code, "", ""⟩ }]

/-- A new output. -/
def newOutput : Planting :=
  ⟨⟨"o/modules/new"⟩, .file ByteArray.empty false (some ⟨3⟩)⟩

theorem rebuilt_small :
    let s := smallSuite ⟨"h"⟩ ⟨"o"⟩
    let runner := smallTools [] [newOutput] 0
    ∃ w', (buildIfNeeded runner s).run.run smallWorld = (.ok true, w') ∧
      w'.disk.isFile [] ⟨"/h/a.h"⟩ = true ∧ w'.disk.isFile [] ⟨"/o/modules/new"⟩ = true ∧
      Rebuilt runner s smallWorld w' := by
  intro s runner
  have hsep : smallWorld.disk.Separate [] s.config.capiHeaders s.config.capiHome := by
    decide +kernel
  obtain ⟨hok, hfiles⟩ : ((buildIfNeeded runner s).run.run smallWorld).1 = .ok true ∧
      ((buildIfNeeded runner s).run.run smallWorld).2.disk.isFile [] ⟨"/h/a.h"⟩ = true ∧
      ((buildIfNeeded runner s).run.run smallWorld).2.disk.isFile [] ⟨"/o/modules/new"⟩ = true := by
    decide +kernel
  rcases hrun : (buildIfNeeded runner s).run.run smallWorld with ⟨r, w'⟩
  rw [hrun] at hok hfiles
  obtain rfl : r = .ok true := hok
  exact ⟨w', rfl, hfiles.1, hfiles.2, (buildIfNeeded_spec runner s smallWorld).2 hsep w' hrun⟩

/-- **Not all of it holds for every tool and every path.**  The query for the class path can remove
the directory of modules before the setup script starts.  An old output is back when its path,
which led nowhere, leads to it once a directory on its way was made. -/
theorem modules_gone_or_output_back :
    (let s := smallSuite ⟨"h"⟩ ⟨"o"⟩
      let runner := smallTools [⟨⟨"o/modules"⟩, .nothing⟩] [] 0
      let after := (buildIfNeeded runner s).run.run smallWorld
      smallWorld.disk.Separate [] s.config.capiHeaders s.config.capiHome ∧
        after.1 = .ok true ∧
        after.2.calls.map (fun c => (c.invocation.cwd, c.disk.isDir [] (modulesDir s))) =
          [(some ⟨"/"⟩, true), (some (scratchDir s), false)]) ∧
      let s := smallSuite ⟨"h"⟩ ⟨"gone/../o"⟩
      let after := (buildIfNeeded (smallTools [] [] 0) s).run.run smallWorld
      smallWorld.disk.pathExists [] s.config.capiHome = false ∧
        after.1 = .ok true ∧
        after.2.disk.isFile [] (s.config.capiHome.child "old") = true ∧
        after.2.calls.map (fun c => c.disk.isFile [] (s.config.capiHome.child "old")) =
          [true, true] := by
  decide +kernel

end SuiteGate.Capi
