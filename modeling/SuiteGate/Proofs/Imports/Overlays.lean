import SuiteGate.Disk.Planting
import SuiteGate.Imports.Update
import SuiteGate.Proofs.Disk.Confined
import SuiteGate.Proofs.Disk.Texts
import SuiteGate.Proofs.Tools.Repository
/-!
# Updating the overlays

An update of the overlays asks for the commit of `ci-overlays` anew for each checkout that has a
file for it (`updateOverlay_cases`).  If the answers are alike and asking changes no files
(`AnswersAlike`), the update writes the same line over each of these files and changes nothing else
(`OverlaysUpdated`): no checkout gets a file that had none, and without an answer all stays as it
is.

The headline is `updateOverlays_spec`.
-/

namespace SuiteGate

namespace Imports

open Disk

/-! ### The checkouts next to the suite -/

/-- The file for the overlays in a checkout. -/
def overlayFile : Name := ⟨"ci.jsonnet", by decide⟩

/-- A name that a checkout like that of the suite can have. -/
def IsCheckout (x : Name) : Prop :=
  Text.startsWith x.text "graalpython" = true

instance : DecidablePred IsCheckout := fun x =>
  inferInstanceAs (Decidable (Text.startsWith x.text "graalpython" = true))

/-- The path of the file for the overlays in a checkout next to the suite. -/
def overlayPath (parent : Path) (x : Name) : Path :=
  (parent.child x.text).child overlayFile.text

/-- The place of the file for the overlays in a checkout next to the suite. -/
def IsOverlayPlace (home : List Name) (q : List Name) : Prop :=
  ∃ x, IsCheckout x ∧ q = home ++ [x, overlayFile]

theorem isSibling_child (p : Path) (x : Name) :
    isSibling (p.child x.text) = true ↔ IsCheckout x := by
  rw [isSibling, Path.fileName?_child]
  rfl

section

variable {d : Disk} {cwd home : List Name} {parent : Path} {dirs : List Path}

/-- The checkouts next to the suite are the entries with such names. -/
theorem mem_siblings_iff (h : siblings d cwd parent = .ok dirs) :
    ∃ es, d.readDir cwd parent = .ok es ∧ ∀ dir, dir ∈ dirs ↔
      ∃ e ∈ es, IsCheckout e.1 ∧ dir = parent.child e.1.text := by
  rw [siblings] at h
  obtain ⟨es, hes, hdirs⟩ := exists_of_bind_eq_ok h
  refine ⟨es, hes, fun dir => ?_⟩
  rw [← Except.ok.inj hdirs, List.mem_mergeSort, List.mem_filter, List.mem_map]
  constructor
  · rintro ⟨⟨e, he, rfl⟩, hsibling⟩
    exact ⟨e, he, (isSibling_child parent e.1).mp hsibling, rfl⟩
  · rintro ⟨e, he, hcheckout, rfl⟩
    exact ⟨⟨e, he, rfl⟩, (isSibling_child parent e.1).mpr hcheckout⟩

theorem exists_of_mem_siblings (h : siblings d cwd parent = .ok dirs) {dir : Path}
    (hdir : dir ∈ dirs) : ∃ x, IsCheckout x ∧ dir = parent.child x.text := by
  obtain ⟨es, -, hmem⟩ := mem_siblings_iff h
  obtain ⟨e, -, hcheckout, rfl⟩ := (hmem dir).mp hdir
  exact ⟨e.1, hcheckout, rfl⟩

/-- **A checkout that has a file for the overlays** is found. -/
theorem mem_siblings (h : siblings d cwd parent = .ok dirs) {x : Name} (hx : IsCheckout x)
    (hfile : d.pathExists cwd (overlayPath parent x) = true) : parent.child x.text ∈ dirs := by
  obtain ⟨es, hes, hmem⟩ := mem_siblings_iff h
  have hdir := isDir_of_pathExists_child (Path.isEmpty_text_child parent x) hfile
  obtain ⟨e, he, rfl⟩ := List.mem_map.mp (mem_readDir_of_isDir_child hes hdir)
  exact (hmem _).mpr ⟨e, he, hx, rfl⟩

/-- The file for the overlays in a checkout stands where its names say. -/
theorem place_of_overlay (hg : d.Grounds cwd parent home) {x : Name} {place : List Name} {n : Node}
    (hl : d.locate cwd (overlayPath parent x) true = .ok (place, n)) :
    place = home ++ [x, overlayFile] := by
  obtain ⟨-, hgoal, -⟩ := locate_eq_ok_iff.mp hl
  -- the two names are followed from the directory on, where there are no links
  have horigin : origin cwd (overlayPath parent x) = origin cwd parent := by
    simp only [overlayPath, Path.child_eq, origin_join (Path.isAbsolute_ofJoin _)]
  rw [wayTo, horigin, overlayPath, stepsOf_child, Path.steps_child, List.append_assoc] at hgoal
  exact (hg.confined (x := x)).goal_of_inner (List.cons_ne_nil _ _) (by simp) hgoal

end

/-! ### One checkout -/

/-- The commit of the overlays that the version control program answers in a world, if it does. -/
def overlayTip? (runner : Runner) (s : Suite) (parent : Path) (v : World) : Option String :=
  ((runner.answer (s.git.tipQuery (parent.child "ci-overlays")) v).map
    fun output => Text.trim output.stdout).toOption

/-- The text of a file for the overlays that names the given commit. -/
def NamesTip (commit : Option String) (bytes : ByteArray) : Prop :=
  ∃ tip, commit = some tip ∧ bytes = ("\x7b overlay: \"" ++ tip ++ "\" \x7d\n").toUTF8

theorem namesTip_overlayLine {commit : Option String} {tip : String} (h : commit = some tip) :
    NamesTip commit (overlayLine tip).toUTF8 :=
  ⟨tip, h, rfl⟩

/-- **What becomes of one checkout.**  Only where both its file and the overlays are found, the
version control program is asked, and only its answer is written. -/
theorem updateOverlay_cases (runner : Runner) (s : Suite) (parent dir : Path) (v : World) :
    let file := dir.child overlayFile.text
    let query := s.git.tipQuery (parent.child "ci-overlays")
    (v.disk.pathExists v.cwd file = false ∧
        (updateOverlay runner s parent dir).run.run v = (.ok (), v)) ∨
      (v.disk.pathExists v.cwd file = true ∧
        v.disk.pathExists v.cwd (parent.child "ci-overlays") = false ∧
        (updateOverlay runner s parent dir).run.run v =
          (.error (.error (.other "Overlays must be next to repo")), v)) ∨
      v.disk.pathExists v.cwd file = true ∧
        v.disk.pathExists v.cwd (parent.child "ci-overlays") = true ∧
        ((∃ e, overlayTip? runner s parent v = none ∧
            (updateOverlay runner s parent dir).run.run v =
              (.error (.error e), runner.after query v)) ∨
          ∃ tip, overlayTip? runner s parent v = some tip ∧
            (updateOverlay runner s parent dir).run.run v =
              (Op.writeText file (overlayLine tip)).run.run (runner.after query v)) := by
  intro file query
  have hname : dir.child "ci.jsonnet" = file := rfl
  rw [updateOverlay, hname, Op.run_bind, Op.run_ask]
  cases hfile : v.disk.pathExists v.cwd file with
  | false => exact .inl ⟨rfl, rfl⟩
  | true =>
    simp only [if_true, true_and]
    rw [Op.run_bind, Op.run_ask]
    cases hoverlays : v.disk.pathExists v.cwd (parent.child "ci-overlays") with
    | false => exact .inr (.inl ⟨rfl, rfl⟩)
    | true =>
      refine .inr (.inr ⟨rfl, ?_⟩)
      simp only [if_true]
      rw [Op.run_bind, Git.run_tip, overlayTip?]
      cases runner.answer (s.git.tipQuery (parent.child "ci-overlays")) v with
      | error e => exact .inl ⟨e, rfl, rfl⟩
      | ok output => exact .inr ⟨_, rfl, rfl⟩

/-! ### All checkouts -/

/-- During an update of the overlays, the version control program answers each question for their
commit alike, with the given commit or not at all, and changes no files. -/
def AnswersAlike (runner : Runner) (s : Suite) (parent : Path) (commit : Option String)
    (w : World) : Prop :=
  ∀ dirs, siblings w.disk w.cwd parent = .ok dirs →
    Op.Throughout (fun dir v _ => v.disk.pathExists v.cwd (dir.child overlayFile.text) = true →
        v.disk.pathExists v.cwd (parent.child "ci-overlays") = true →
        overlayTip? runner s parent v = commit ∧
          (runner (s.git.tipQuery (parent.child "ci-overlays")) v).disk = v.disk)
      (updateOverlay runner s parent) dirs w

/-- What holds while the overlays are updated: files for the overlays were written over, and those
in the given checkouts name the commit. -/
structure Progress (commit : Option String) (home : List Name) (w : World) (done : List Path)
    (v : World) : Prop where
  cwd_eq : v.cwd = w.cwd
  rewritten : w.disk.Rewritten (IsOverlayPlace home) (NamesTip commit) v.disk
  unanswered : commit = none → v.disk = w.disk
  reads : ∀ dir ∈ done, w.disk.pathExists w.cwd (dir.child overlayFile.text) = true →
    v.disk.Reads w.cwd (dir.child overlayFile.text) (NamesTip commit)

section

variable {runner : Runner} {s : Suite} {parent : Path} {home : List Name} {commit : Option String}
  {w v v' : World} {done : List Path}

theorem Progress.start : Progress commit home w [] w :=
  ⟨rfl, .refl _ _ _, fun _ => rfl, by simp⟩

/-- Progress is kept by what changes neither the disk nor the current directory. -/
theorem Progress.same (h : Progress commit home w done v) (hdisk : v'.disk = v.disk)
    (hcwd : v'.cwd = v.cwd) : Progress commit home w done v' where
  cwd_eq := hcwd.trans h.cwd_eq
  rewritten := by rw [hdisk]; exact h.rewritten
  unanswered hnone := by rw [hdisk]; exact h.unanswered hnone
  reads := by rw [hdisk]; exact h.reads

/-- **The file for the overlays in one more checkout** is written. -/
theorem Progress.write (hg : w.disk.Grounds w.cwd parent home) {x : Name} (hx : IsCheckout x)
    (h : Progress commit home w done v) {tip : String} (htip : commit = some tip)
    (hexists : v.disk.pathExists v.cwd (overlayPath parent x) = true) {disk : Disk}
    (hwrite : v.disk.writeFile v.cwd (overlayPath parent x) (overlayLine tip).toUTF8 = .ok disk) :
    Progress commit home w (done ++ [parent.child x.text]) { v with disk } := by
  rw [h.cwd_eq] at hexists hwrite
  obtain ⟨place, data, hl⟩ := exists_locate_of_writeFile hexists hwrite
  obtain ⟨d', hwrite', hread, hrewritten⟩ :=
    exists_rewritten_of_locate hl (overlayLine tip).toUTF8
  obtain rfl : disk = d' := Except.ok.inj (hwrite.symm.trans hwrite')
  -- the path leads where it led at the start of the update
  obtain ⟨n, hl₀⟩ := h.rewritten.exists_locate_iff.mp ⟨_, hl⟩
  obtain rfl := place_of_overlay hg hl₀
  have hmore : v.disk.Rewritten (IsOverlayPlace home) (NamesTip commit) disk :=
    hrewritten.mono (fun q hq => ⟨x, hx, hq⟩) fun bytes hbytes =>
      hbytes ▸ namesTip_overlayLine htip
  refine ⟨h.cwd_eq, h.rewritten.trans hmore, fun hnone => ?_, fun dir hdir hfile => ?_⟩
  · cases htip.symm.trans hnone
  · rcases List.mem_append.mp hdir with hdone | hlast
    · exact hmore.reads (h.reads dir hdone hfile)
    · obtain rfl := List.mem_singleton.mp hlast
      exact ⟨_, hread, namesTip_overlayLine htip⟩

/-- **One checkout after the other,** progress is made. -/
theorem Progress.step (hg : w.disk.Grounds w.cwd parent home) {x : Name} (hx : IsCheckout x)
    (h : Progress commit home w done v)
    (hgit : v.disk.pathExists v.cwd (overlayPath parent x) = true →
      v.disk.pathExists v.cwd (parent.child "ci-overlays") = true →
      overlayTip? runner s parent v = commit ∧
        (runner (s.git.tipQuery (parent.child "ci-overlays")) v).disk = v.disk)
    {r : Except Fault Unit} {v' : World}
    (hrun : (updateOverlay runner s parent (parent.child x.text)).run.run v = (r, v')) :
    (r = .ok () → Progress commit home w (done ++ [parent.child x.text]) v') ∧
      Progress commit home w done v' := by
  rcases updateOverlay_cases runner s parent (parent.child x.text) v with
    ⟨hfile, hcase⟩ | ⟨-, -, hcase⟩ | ⟨hfile, hoverlays, hcase⟩
  · -- there is no file, and there was none at the start
    obtain ⟨rfl, rfl⟩ := Prod.mk.inj (hrun.symm.trans hcase)
    refine ⟨fun _ => ⟨h.cwd_eq, h.rewritten, h.unanswered, fun dir hdir hexists => ?_⟩, h⟩
    rcases List.mem_append.mp hdir with hdone | hlast
    · exact h.reads dir hdone hexists
    · obtain rfl := List.mem_singleton.mp hlast
      rw [h.cwd_eq, h.rewritten.pathExists_eq, hexists] at hfile
      cases hfile
  · obtain ⟨rfl, rfl⟩ := Prod.mk.inj (hrun.symm.trans hcase)
    exact ⟨fun hok => absurd hok (by simp), h⟩
  · obtain ⟨htip, hdisk⟩ := hgit hfile hoverlays
    have hafter : Progress commit home w done
        (runner.after (s.git.tipQuery (parent.child "ci-overlays")) v) := h.same hdisk rfl
    rcases hcase with ⟨e, -, hcase⟩ | ⟨tip, hanswer, hcase⟩
    · obtain ⟨rfl, rfl⟩ := Prod.mk.inj (hrun.symm.trans hcase)
      exact ⟨fun hok => absurd hok (by simp), hafter⟩
    · rw [hcase, Op.run_writeText] at hrun
      -- asking has not changed the file
      have hexists : (runner.after (s.git.tipQuery (parent.child "ci-overlays")) v).disk.pathExists
          v.cwd (overlayPath parent x) = true := by
        rw [show (runner.after (s.git.tipQuery (parent.child "ci-overlays")) v).disk = v.disk
          from hdisk]
        exact hfile
      split at hrun
      · next disk hwrite =>
        obtain ⟨rfl, rfl⟩ := Prod.mk.inj hrun
        have hnext := hafter.write hg hx (htip ▸ hanswer) hexists hwrite
        exact ⟨fun _ => hnext, hnext.cwd_eq, hnext.rewritten, hnext.unanswered,
          fun dir hdir => hnext.reads dir (List.mem_append_left _ hdir)⟩
      · obtain ⟨rfl, rfl⟩ := Prod.mk.inj hrun
        exact ⟨fun hok => absurd hok (by simp), hafter⟩

/-- **A run along checkouts** makes progress with those that are completed. -/
theorem Progress.run (hg : w.disk.Grounds w.cwd parent home) {dirs : List Path}
    (hdirs : ∀ dir ∈ dirs, ∃ x, IsCheckout x ∧ dir = parent.child x.text)
    (hgit : Op.Throughout (fun dir v _ =>
        v.disk.pathExists v.cwd (dir.child overlayFile.text) = true →
        v.disk.pathExists v.cwd (parent.child "ci-overlays") = true →
        overlayTip? runner s parent v = commit ∧
          (runner (s.git.tipQuery (parent.child "ci-overlays")) v).disk = v.disk)
      (updateOverlay runner s parent) dirs w) :
    Progress commit home w (Op.completed (updateOverlay runner s parent) dirs w)
      ((dirs.forM (updateOverlay runner s parent)).run.run w).2 := by
  rw [← List.nil_append (Op.completed _ dirs w)]
  refine hgit.keeps (I := Progress commit home w) ?_ ?_ .start
  · intro done dir hdir v v' hask h hv
    obtain ⟨x, hx, rfl⟩ := hdirs dir hdir
    exact (h.step hg hx hask hv).1 rfl
  · intro done dir hdir v v' e hask h hv
    obtain ⟨x, hx, rfl⟩ := hdirs dir hdir
    exact (h.step hg hx hask hv).2

/-- **Without the overlays** the first checkout with a file for them ends the update, and nothing
has changed. -/
theorem run_forM_updateOverlay_of_missing
    (hmissing : w.disk.pathExists w.cwd (parent.child "ci-overlays") = false) {dirs : List Path}
    (hfile : ∃ dir ∈ dirs, w.disk.pathExists w.cwd (dir.child overlayFile.text) = true) :
    (dirs.forM (updateOverlay runner s parent)).run.run w =
      (.error (.error (.other "Overlays must be next to repo")), w) := by
  induction dirs with
  | nil =>
    obtain ⟨dir, hdir, -⟩ := hfile
    cases hdir
  | cons dir dirs ih =>
    rw [Op.run_forM_cons]
    rcases updateOverlay_cases runner s parent dir w with
      ⟨hno, hcase⟩ | ⟨-, -, hcase⟩ | ⟨-, hoverlays, -⟩
    · -- this checkout has no file, so a later one has
      rw [hcase]
      obtain ⟨dir', hdir', hexists⟩ := hfile
      rcases List.mem_cons.mp hdir' with rfl | hlater
      · cases hno.symm.trans hexists
      · exact ih ⟨dir', hlater, hexists⟩
    · rw [hcase]
    · cases hmissing.symm.trans hoverlays

end

/-- What an update of the overlays does, if the given commit is the answer to each question for
it. -/
structure OverlaysUpdated (commit : Option String) (parent : Path) (home : List Name) (w : World)
    (r : Except Fault Unit × World) : Prop where
  /-- Nothing changes but files for the overlays in checkouts that had one. -/
  rewritten : w.disk.Rewritten (IsOverlayPlace home) (NamesTip commit) r.2.disk
  /-- If the update succeeds, all of these name the commit. -/
  named : r.1 = .ok () → ∀ x, IsCheckout x →
    w.disk.pathExists w.cwd (overlayPath parent x) = true →
      ∃ tip, commit = some tip ∧ r.2.disk.textAt w.cwd (overlayPath parent x) =
        .ok ("\x7b overlay: \"" ++ tip ++ "\" \x7d\n")
  /-- Without the overlays there is an error and no change. -/
  missing : (∃ x, IsCheckout x ∧ w.disk.pathExists w.cwd (overlayPath parent x) = true) →
    w.disk.pathExists w.cwd (parent.child "ci-overlays") = false → ∃ e, r = (.error (.error e), w)
  /-- Without an answer nothing changes. -/
  unanswered : commit = none → r.2.disk = w.disk

theorem run_updateOverlays {runner : Runner} {s : Suite} {parent : Path}
    (hparent : s.dir.parent? = some parent) (w : World) :
    (updateOverlays runner s).run.run w =
      match siblings w.disk w.cwd parent with
      | .ok dirs => (dirs.forM (updateOverlay runner s parent)).run.run w
      | .error e => (.error (.error (.io e)), w) := by
  simp only [updateOverlays, hparent]
  rw [Op.run_bind, Op.run_query]
  cases siblings w.disk w.cwd parent <;> rfl

/-- **Updating the overlays** of a parent directory without links in it, with a version control
program that answers alike and changes no files. -/
theorem updateOverlays_spec {runner : Runner} {s : Suite} {parent : Path} {home : List Name}
    {commit : Option String} {w : World} (hparent : s.dir.parent? = some parent)
    (hg : w.disk.Grounds w.cwd parent home) (hgit : AnswersAlike runner s parent commit w) :
    OverlaysUpdated commit parent home w ((updateOverlays runner s).run.run w) := by
  rw [run_updateOverlays hparent]
  cases hdirs : siblings w.disk w.cwd parent with
  | error e =>
    exact ⟨.refl _ _ _, fun hok => absurd hok (by simp), fun _ _ => ⟨_, rfl⟩, fun _ => rfl⟩
  | ok dirs =>
    have hprogress := Progress.run hg (fun dir => exists_of_mem_siblings hdirs) (hgit dirs hdirs)
    refine ⟨hprogress.rewritten, fun hok x hx hfile => ?_, fun hsome hmissing => ?_,
      hprogress.unanswered⟩
    · -- all checkouts were completed, this one among them
      have hmem := mem_siblings hdirs hx hfile
      rw [← Op.completed_of_ok hok] at hmem
      obtain ⟨bytes, hread, tip, htip, rfl⟩ := hprogress.reads _ hmem hfile
      exact ⟨tip, htip, textAt_of_readFile hread⟩
    · obtain ⟨x, hx, hfile⟩ := hsome
      exact ⟨_, run_forM_updateOverlay_of_missing hmissing
        ⟨_, mem_siblings hdirs hx hfile, hfile⟩⟩

/-- A suite with another checkout and other directories next to it. -/
def overlaySuite : Suite :=
  { config := { suite := { dir := ⟨"/w/graalpython"⟩ } } }

/-- Both checkouts have a file for the overlays, and so has a directory of another name. -/
def overlayWorld : World :=
  World.start ((Disk.empty ⟨10⟩).plant []
    [⟨⟨"w/ci-overlays"⟩, .dir⟩,
     ⟨⟨"w/graalpython/ci.jsonnet"⟩, .file "old\n".toUTF8 false none⟩,
     ⟨⟨"w/graalpython-2/ci.jsonnet"⟩, .file "older\n".toUTF8 false none⟩,
     ⟨⟨"w/graalpython-3"⟩, .dir⟩,
     ⟨⟨"w/truffle/ci.jsonnet"⟩, .file "other\n".toUTF8 false none⟩]) [] ⟨"/tmp"⟩ ∅

/-- A version control program that answers each question with one commit. -/
def oneTip : Runner := fun _ v =>
  ⟨v.disk, .ok ⟨some 0, "abc\n", ""⟩, ByteArray.empty, ByteArray.empty, []⟩

theorem oneTip_answersAlike (s : Suite) (parent : Path) (w : World) :
    AnswersAlike oneTip s parent (some "abc") w := by
  have htip : ∀ v, overlayTip? oneTip s parent v = some "abc" := by
    intro v
    have htrim : Text.trim "abc\n" = "abc" := by decide +kernel
    exact congrArg some htrim
  exact fun dirs _ => .of_forall fun dir v v' _ _ => ⟨htip v, rfl⟩

/-- The update succeeds and names the commit in both checkouts, and nowhere else. -/
theorem updateOverlays_small :
    overlaySuite.dir.parent? = some ⟨"/w"⟩ ∧
      overlayWorld.disk.Grounds overlayWorld.cwd ⟨"/w"⟩ [⟨"w", by decide⟩] ∧
      AnswersAlike oneTip overlaySuite ⟨"/w"⟩ (some "abc") overlayWorld ∧
      OverlaysUpdated (some "abc") ⟨"/w"⟩ [⟨"w", by decide⟩] overlayWorld
        ((updateOverlays oneTip overlaySuite).run.run overlayWorld) ∧
      ((updateOverlays oneTip overlaySuite).run.run overlayWorld).1 = .ok () ∧
      ∀ x ∈ ["graalpython", "graalpython-2"],
        ((updateOverlays oneTip overlaySuite).run.run overlayWorld).2.disk.textAt []
          (((⟨"/w"⟩ : Path).child x).child "ci.jsonnet") = .ok "\x7b overlay: \"abc\" \x7d\n" := by
  have hparent : overlaySuite.dir.parent? = some ⟨"/w"⟩ := by decide +kernel
  have hg : overlayWorld.disk.Grounds overlayWorld.cwd ⟨"/w"⟩ [⟨"w", by decide⟩] := by
    decide +kernel
  have halike := oneTip_answersAlike overlaySuite ⟨"/w"⟩ overlayWorld
  have hupdated := updateOverlays_spec hparent hg halike
  have hsiblings : siblings overlayWorld.disk overlayWorld.cwd ⟨"/w"⟩ =
      .ok [⟨"/w/graalpython"⟩, ⟨"/w/graalpython-2"⟩, ⟨"/w/graalpython-3"⟩] := by
    have hfound : (overlayWorld.disk.readDir overlayWorld.cwd ⟨"/w"⟩).map (fun es =>
        (es.map fun e => (⟨"/w"⟩ : Path).child e.1.text).filter isSibling) =
          .ok [⟨"/w/graalpython"⟩, ⟨"/w/graalpython-2"⟩, ⟨"/w/graalpython-3"⟩] := by
      decide +kernel
    -- they are found in order already
    rw [siblings]
    cases hes : overlayWorld.disk.readDir overlayWorld.cwd ⟨"/w"⟩ with
    | error e => simp [hes, Except.map] at hfound
    | ok es =>
      simp only [hes, Except.map, Except.ok.injEq] at hfound
      simp only [bind, Except.bind, pure, Except.pure, hfound]
      rw [List.mergeSort_of_pairwise (by decide +kernel)]
  have hok : ((updateOverlays oneTip overlaySuite).run.run overlayWorld).1 = .ok () := by
    rw [run_updateOverlays hparent, hsiblings]
    decide +kernel
  have hnamed : ∀ x : Name, IsCheckout x →
      overlayWorld.disk.pathExists [] (overlayPath ⟨"/w"⟩ x) = true →
      ((updateOverlays oneTip overlaySuite).run.run overlayWorld).2.disk.textAt []
        (overlayPath ⟨"/w"⟩ x) = .ok "\x7b overlay: \"abc\" \x7d\n" := by
    intro x hx hfile
    obtain ⟨tip, htip, htext⟩ := hupdated.named hok x hx hfile
    obtain rfl := Option.some.inj htip
    exact htext
  refine ⟨hparent, hg, halike, hupdated, hok, ?_⟩
  intro x hx
  rcases List.mem_pair.mp hx with rfl | rfl
  · exact hnamed ⟨"graalpython", by decide⟩ (by decide) (by decide +kernel)
  · exact hnamed ⟨"graalpython-2", by decide⟩ (by decide) (by decide +kernel)

end Imports

end SuiteGate
