import SuiteGate.Proofs.Disk.Removals
import SuiteGate.Proofs.Native.Rebuild
import SuiteGate.Proofs.Staleness
/-!
# After a failed build

Whether the C API project is built depends on nothing but the times of its files, also after a
build that failed.  The headline is `buildIfNeeded_after_failure`: the next build says that nothing
is to be done exactly if the failed one left outputs that are not older than the sources, and then
these came about in the runs of its tools, or cleaning could not remove them.

A failed build has cleaned up before any tool was run, or has not (`cases_of_clean`).  If it has,
only tools can have brought outputs back (`rebuild_spec`); if it has not, outputs and sources are as
old as before (`not_upToDate_of_pruned`), or cleaning stopped midway at a directory of outputs that
keeps its entries.  Then the outputs that are left may look up to date (`takenForGood_small`).
-/

namespace SuiteGate

open Disk

namespace Staleness

section

variable {d d' : Disk} {cwd : List Name} {source output p q : Path}

/-- Stamps of a tree of its own are kept, unless a link leads nowhere now. -/
theorem HasStamp.of_pruned (ha : d.Avoids cwd p q) (hb : d.Avoids cwd q p)
    (h : d.Pruned cwd q d') (hsound : ¬ Broken d' cwd p) {s : Stamp} (hs : HasStamp d cwd p s) :
    HasStamp d' cwd p s := by
  cases hs with
  | file hr =>
    obtain ⟨m, hm, hk⟩ := hr.of_pruned ha hb h
    obtain rfl := Node.kind_eq_file_iff.mp hk
    exact .file hm
  | link hr hstat =>
    obtain ⟨m, hm, hk⟩ := hr.of_pruned ha hb h
    obtain rfl := Node.kind_eq_link_iff.mp hk
    -- the link may lead out of its tree, but not to another file than before
    cases hexists : d'.pathExists cwd (p.below _) with
    | false => exact absurd (.dangling hm hexists) hsound
    | true =>
      obtain ⟨n, hn⟩ := pathExists_iff.mp hexists
      obtain ⟨n', hn', hk'⟩ := stat_of_within h.within hn
      rw [hstat, Except.ok.injEq] at hn'
      obtain rfl := Node.kind_eq_file_iff.mp (hk'.symm.trans (congrArg Node.kind hn'.symm))
      exact .link hm hn

/-- **Stale outputs stay stale** if things are removed from a tree that is neither theirs nor that
of the sources. -/
theorem not_upToDate_of_pruned {v : Verdict} (hsource : d.Avoids cwd source q)
    (hsource' : d.Avoids cwd q source) (houtput : d.Avoids cwd output q)
    (houtput' : d.Avoids cwd q output) (h : d.Pruned cwd q d')
    (hcheck : check d cwd source output = .ok v) (hv : v.isStale = true) :
    check d' cwd source output ≠ .ok .upToDate := by
  intro hup
  obtain ⟨hread, ⟨o, ho⟩, hold⟩ := check_eq_upToDate_iff.mp hup
  cases v with
  | upToDate => simp [Verdict.isStale] at hv
  | noOutput dir => exact (check_eq_noOutput_iff.mp hcheck).2.2 o (ho.of_within h.within)
  | outdated newest oldest =>
    obtain ⟨-, s, o', hs, ho', hlt⟩ := exists_check_eq_outdated_iff.mp ⟨newest, oldest, hcheck⟩
    have hexists : d'.pathExists cwd output = true := by
      rw [← Bool.not_eq_false]
      exact fun hmissing => not_hasStamp_of_missing hmissing o ho
    exact hold ⟨s, o',
      hs.of_pruned hsource hsource' h fun hbroken => hread (.inr (.inl hbroken)),
      ho'.of_pruned houtput houtput' h fun hbroken => hread (.inr (.inr ⟨hexists, hbroken⟩)), hlt⟩

end

end Staleness

namespace Capi

section

variable {d d' : Disk} {cwd : List Name} {p q : Path}

theorem OnlyDirs.not_hasStamp (h : OnlyDirs d cwd p) (s : Staleness.Stamp) :
    ¬ Staleness.HasStamp d cwd p s := by
  rintro (hr | ⟨hr, -⟩)
  · simpa [Node.isDir] using h _ _ hr
  · simpa [Node.isDir] using h _ _ hr

/-- A directory that could be emptied holds nothing. -/
theorem onlyDirs_of_clear {place : List Name} {n : Node}
    (hl : d.locate cwd p false = .ok (place, n)) (hdir : n.isDir = true)
    (hdone : n.strip.1 = true) : OnlyDirs (d.clear place).tick cwd p := by
  intro rel m hr
  obtain ⟨-, -, hn, -⟩ := locate_eq_ok_iff.mp hl
  have hplace : d.DirAt place := dirAt_iff.mpr ⟨n, hn, hdir⟩
  obtain ⟨place', top, hl', -, hget⟩ := hr.exists_place
  obtain ⟨top', hl'', -⟩ := locate_of_within (within_tick_iff.mpr (within_clear hplace)) hl'
  obtain ⟨rfl, rfl⟩ : place = place' ∧ n = top' := by
    obtain ⟨access, es, rfl⟩ := Node.exists_eq_dir hdir
    simpa [locate_true_of_not_isLink hl rfl] using hl''
  -- nothing is left below the directory, so `rel` is empty
  have hkind := kindAt_of_get? hget
  rw [kindAt_tick] at hkind
  obtain rfl : rel = [] := by
    by_contra hne
    cases (kindAt_clear_below hn hdir hdone hne).symm.trans hkind
  rw [List.append_nil, kindAt_clear_of_outside hplace (.inr rfl), kindAt_of_get? hn,
    Option.some.injEq] at hkind
  rw [← Node.isDir_eq_of_kind_eq hkind, hdir]

/-- **A removal that fails** leaves nothing in the directory, or stops at one in it that keeps its
entries. -/
theorem onlyDirs_or_keeps_of_removeDirAll {e : IoError}
    (h : d.removeDirAll cwd p = (.error e, d')) :
    d' = d ∨ OnlyDirs d' cwd p ∨
      e = .os .permissionDenied ∧ d'.Within d ∧ ∃ rel n, d.Reaches cwd p rel n ∧ n.Keeps := by
  refine (removeDirAll_eq_error h).imp_right ?_
  rintro ⟨place, n, hl, hdir, rfl, hreason⟩
  by_cases hdone : n.strip.1 = true
  · exact .inl (onlyDirs_of_clear hl hdir hdone)
  · obtain ⟨-, -, hn, -⟩ := locate_eq_ok_iff.mp hl
    obtain ⟨rel, m, hm, hkeeps⟩ :=
      Node.exists_holds_keeps (Node.distinct_of_get? d.distinct hn) hdone
    have hstat : d.stat cwd p = .ok n := by
      obtain ⟨access, es, rfl⟩ := Node.exists_eq_dir hdir
      exact stat_eq_ok_iff.mpr ⟨place, locate_true_of_not_isLink hl rfl⟩
    exact .inr ⟨hreason.resolve_left hdone,
      within_tick_iff.mpr (within_clear (dirAt_iff.mpr ⟨n, hn, hdir⟩)),
      rel, m, ⟨n, hstat, hm⟩, hkeeps⟩

/-- **Cleaning that fails** removes nothing but from the first tree, or empties the second, or stops
at a directory in the second that keeps its entries. -/
theorem cases_of_clean {e : IoError} (h : Staleness.clean d cwd [p, q] = (.error e, d')) :
    d.Pruned cwd p d' ∨ OnlyDirs d' cwd q ∨
      e = .os .permissionDenied ∧ d'.Within d ∧ ∃ rel n, d.Reaches cwd q rel n ∧ n.Keeps := by
  rcases clean_cons d cwd p [q] with ⟨e₁, d₁, he, hstate⟩ | ⟨d₁, hfreed, h₁⟩
  · obtain rfl : d₁ = d' := by
      rw [he] at h
      simpa using congrArg Prod.snd h
    rcases hstate with rfl | hfails
    · exact .inl (.refl d₁ cwd p)
    · rcases removeDirAll_eq_error hfails with rfl | ⟨place, n, hl, hdir, hd', -⟩
      · exact .inl (.refl d₁ cwd p)
      · exact .inl (Emptied.pruned ⟨place, n, hl, hdir, hd'⟩)
  · rcases clean_cons d₁ cwd q [] with ⟨e₂, d₂, he, hstate⟩ | ⟨d₂, -, h₂⟩
    · obtain ⟨rfl, rfl⟩ : e₂ = e ∧ d₂ = d' := by
        rw [h₁, he] at h
        simpa using h
      rcases hstate with rfl | hfails
      · exact .inl hfreed.pruned
      · rcases onlyDirs_or_keeps_of_removeDirAll hfails with
          rfl | hdirs | ⟨hdenied, hwithin, rel, n, hr, hkeeps⟩
        · exact .inl hfreed.pruned
        · exact .inr (.inl hdirs)
        · have hbefore := hfreed.pruned.within
          obtain ⟨m, hm, hmkeeps⟩ := hr.keeps_of_within hbefore hkeeps
          exact .inr (.inr ⟨hdenied, hwithin.trans hbefore, rel, m, hm, hmkeeps⟩)
    · rw [h₁, h₂, Staleness.clean] at h
      simp at h

end

/-! ### The next build -/

variable {runner : Runner} {s : Suite} {w w₁ w₂ : World}

/-- A build that says that nothing is to be done found the outputs up to date. -/
theorem buildIfNeeded_eq_false_iff :
    ((buildIfNeeded runner s).run.run w).1 = .ok false ↔
      Staleness.check w.disk w.cwd s.config.capiSource s.config.capiHome = .ok .upToDate := by
  refine ⟨check_of_buildIfNeeded_eq_false, fun hup => ?_⟩
  have hneeds : ((needsBuild s).run.run w).1 = .ok .upToDate := by
    rw [run_needsBuild, hup]
    rfl
  rw [buildIfNeeded_of_not_stale fun v hv => Except.ok.inj (hv.symm.trans hneeds), hneeds]
  rfl

/-- A build that failed in cleaning: no tool was run, a directory among the outputs kept its
entries, and what is left of the outputs was there before. -/
structure StoppedCleaning (s : Suite) (w : World) (e : Fault) (w₁ : World) : Prop where
  error : e = .error (.io (.os .permissionDenied))
  calls : w₁.calls = w.calls
  keeps : ∃ rel n, w.disk.Reaches w.cwd s.config.capiHome rel n ∧ n.Keeps
  left : ∀ rel n, w₁.disk.Reaches w.cwd s.config.capiHome rel n →
    ∃ m, w.disk.Reaches w.cwd s.config.capiHome rel m ∧ m.kind = n.kind

/-- **After a failed build** the next one says that nothing is to be done exactly if the trees can
be read, there is an output, and no output is older than a source.  Then every output came about in
the run of a tool by the failed build, or that was stopped in cleaning by a directory of outputs
that could not be listed or changed. -/
theorem buildIfNeeded_after_failure (runner' : Runner) {v : Staleness.Verdict} {e : Fault}
    (hsep : w.disk.Separate w.cwd s.config.capiHeaders s.config.capiHome)
    (hsource : w.disk.Avoids w.cwd s.config.capiSource s.config.capiHeaders)
    (hheaders : w.disk.Avoids w.cwd s.config.capiHeaders s.config.capiSource)
    (hneeds : ((needsBuild s).run.run w).1 = .ok v) (hv : v.isStale = true)
    (hfail : (buildIfNeeded runner s).run.run w = (.error e, w₁))
    (hdisk : w₂.disk = w₁.disk) (hcwd : w₂.cwd = w₁.cwd) :
    (((buildIfNeeded runner' s).run.run w₂).1 = .ok false ↔
      ¬ Staleness.Unreadable w₁.disk w.cwd s.config.capiSource s.config.capiHome ∧
        (∃ o, Staleness.HasStamp w₁.disk w.cwd s.config.capiHome o) ∧
          ¬ Staleness.Outdated w₁.disk w.cwd s.config.capiSource s.config.capiHome) ∧
    (((buildIfNeeded runner' s).run.run w₂).1 = .ok false →
      (∀ rel n, w₁.disk.Reaches w.cwd s.config.capiHome rel n → n.isDir = false →
        CameAbout runner w w₁ (Shows w.cwd s.config.capiHome rel n.kind)) ∨
      StoppedCleaning s w e w₁) := by
  have hcheck : Staleness.check w.disk w.cwd s.config.capiSource s.config.capiHome = .ok v := by
    rw [run_needsBuild] at hneeds
    cases hc : Staleness.check w.disk w.cwd s.config.capiSource s.config.capiHome with
    | error e => simp [hc, Except.mapError] at hneeds
    | ok v' => simpa [hc, Except.mapError] using hneeds
  have hrebuild := rebuild_spec runner s w hsep hcheck hv
  rw [hfail] at hrebuild
  have hsame : w₁.cwd = w.cwd := by
    rcases hrebuild with ⟨e', d, hrun, -⟩ | ⟨d, cs, w₃, -, -, -, hsame, -⟩
    · have hw : w₁ = { w with disk := d } := congrArg Prod.snd hrun
      rw [hw]
    · exact hsame
  rw [buildIfNeeded_eq_false_iff, hdisk, hcwd, hsame]
  refine ⟨Staleness.check_eq_upToDate_iff, fun hup => ?_⟩
  rcases hrebuild with
    ⟨e', d, hrun, hclean⟩ | ⟨d, cs, w₃, hdirs, hruns, hwithin, -, hcalls, -⟩
  · obtain ⟨he, rfl⟩ := Prod.mk.inj hrun
    obtain rfl := Except.error.inj he
    rcases cases_of_clean hclean with hpruned | hdirs | ⟨rfl, hwithin, hkeeps⟩
    · -- the outputs are as before: a build is still needed
      exact absurd hup (Staleness.not_upToDate_of_pruned hsource hheaders hsep.right_avoids
        hsep.left_avoids hpruned hcheck hv)
    · -- there are none
      obtain ⟨-, ⟨o, ho⟩, -⟩ := Staleness.check_eq_upToDate_iff.mp hup
      exact absurd ho (hdirs.not_hasStamp o)
    · exact .inr ⟨rfl, rfl, hkeeps, fun rel n hr => hr.of_within hwithin⟩
  · exact .inl fun rel n hr hn =>
      cameAbout_of_runs hruns hwithin hcalls (not_shows_of_onlyDirs hdirs hn) hr

/-- A setup script that fails after it wrote an output: the next build takes the output for good. -/
theorem upToDate_after_failure_small :
    let s := smallSuite ⟨"h"⟩ ⟨"o"⟩
    let runner := smallTools [] [newOutput] 1
    ∃ e w₁, (buildIfNeeded runner s).run.run smallWorld = (.error e, w₁) ∧
      ((buildIfNeeded runner s).run.run w₁).1 = .ok false ∧
      w₁.disk.isFile [] ⟨"/o/modules/new"⟩ = true ∧
      ∀ rel n, w₁.disk.Reaches [] s.config.capiHome rel n → n.isDir = false →
        CameAbout runner smallWorld w₁ (Shows [] s.config.capiHome rel n.kind) := by
  intro s runner
  obtain ⟨r, w₁, hrun⟩ : ∃ r w₁, (buildIfNeeded runner s).run.run smallWorld = (r, w₁) :=
    ⟨_, _, rfl⟩
  obtain ⟨hfail, hnext, hnew, hcalls⟩ :
      ((buildIfNeeded runner s).run.run smallWorld).1.isOk = false ∧
      ((buildIfNeeded runner s).run.run
        ((buildIfNeeded runner s).run.run smallWorld).2).1 = .ok false ∧
      ((buildIfNeeded runner s).run.run smallWorld).2.disk.isFile []
        ⟨"/o/modules/new"⟩ = true ∧
      ((buildIfNeeded runner s).run.run smallWorld).2.calls.length = 2 := by
    decide +kernel
  have hstale : ((needsBuild s).run.run smallWorld).1 =
      .ok (.outdated ⟨⟨"/s/include/a.h"⟩, ⟨2⟩⟩ ⟨⟨"/o/old"⟩, ⟨1⟩⟩) := by decide +kernel
  rw [hrun] at hfail hnext hnew hcalls
  cases r with
  | ok b => cases hfail
  | error e =>
    have hafter := buildIfNeeded_after_failure runner (by decide +kernel) (by decide +kernel)
      (by decide +kernel) hstale rfl hrun rfl rfl
    -- the tools were run, so it was not cleaning that failed
    refine ⟨e, w₁, hrun, hnext, hnew, (hafter.2 hnext).resolve_right fun hstopped => ?_⟩
    rw [hstopped.calls] at hcalls
    cases hcalls

/-- A needed build failed, and the next one says that nothing is to be done. -/
def TakenForGood (runner : Runner) (s : Suite) (w : World) : Prop :=
  ((needsBuild s).run.run w).1.map Staleness.Verdict.isStale = .ok true ∧
    ((buildIfNeeded runner s).run.run w).1.isOk = false ∧
    ((buildIfNeeded runner s).run.run ((buildIfNeeded runner s).run.run w).2).1 = .ok false

instance (runner : Runner) (s : Suite) (w : World) : Decidable (TakenForGood runner s w) :=
  inferInstanceAs (Decidable (_ ∧ _ ∧ _))

/-- A file that was modified at some time. -/
def fileOf (seconds : Int) : Node :=
  .file ⟨ByteArray.empty, .ofSeconds seconds 0, false⟩

/-- An output older than the only source, and another in a directory that is not writable, which is
newer. -/
def lockedWorld : World :=
  World.start
    { root := .dir .full
        [(⟨"s", by decide⟩,
          .dir .full [(⟨"include", by decide⟩, .dir .full [(⟨"a.h", by decide⟩, fileOf 10)])]),
        (⟨"o", by decide⟩,
          .dir .full [(⟨"old.so", by decide⟩, fileOf 5),
            (⟨"lib", by decide⟩, .dir ⟨true, false⟩ [(⟨"b.so", by decide⟩, fileOf 20)])])]
      isDir_root := rfl
      distinct := by simp [Node.Distinct, Node.DistinctEntries, fileOf]
      clock := .ofSeconds 30 0 } [] ⟨"/tmp"⟩ ∅

/-- **A failed build may be taken for good:** if the setup script wrote an output before it failed,
if the headers were staged among the outputs, if cleaning the headers removed the sources, or if
cleaning removed the old outputs and stopped at one that it could not remove. -/
theorem takenForGood_small :
    TakenForGood (smallTools [] [newOutput] 1) (smallSuite ⟨"h"⟩ ⟨"o"⟩) smallWorld ∧
      TakenForGood (smallTools [] [] 1) (smallSuite ⟨"o/include"⟩ ⟨"o"⟩) smallWorld ∧
      TakenForGood (smallTools [] [] 1) (smallSuite ⟨"s/."⟩ ⟨"o"⟩) smallWorld ∧
      TakenForGood (smallTools [] [] 0) (smallSuite ⟨"h"⟩ ⟨"o"⟩) lockedWorld := by
  decide +kernel

end Capi

end SuiteGate
