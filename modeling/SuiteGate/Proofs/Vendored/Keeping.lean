import SuiteGate.Disk.Planting
import SuiteGate.Proofs.Disk.Overlays
import SuiteGate.Proofs.Vendored.Conduct
/-!
# What a refresh leaves of the files

Between cleaning and marking the changes, a refresh removes the tree of the suite and lays files
over what is left.  The headline is `run_files`: a place to which nothing is copied holds the file
that it held after the cleaning, but if it is in the removed tree it holds none.

That goes for all files, so a file that is to be kept is gone if it is in that tree
(`kept_file_removed`).
-/

namespace SuiteGate.Vendored.Refresh

/-- What is removed and made anew. -/
def suiteTree (s : Suite) : Path :=
  s.path ⟨"graalpython"⟩

/-- A refresh copies to a path: an item of the library, or a file that it reports as updated. -/
def IsTarget (r : Refresh) (s : Suite) (d : Disk) (cwd : List Name) (report : RefreshReport)
    (p : Path) : Prop :=
  (∃ item, .ok item ∈ d.walk cwd (r.cpython.child "Lib") ∧ item.node.isDir = false ∧
    p = (s.path libraryDir).join (Path.ofJoin item.below)) ∨
  ∃ file ∈ report.updated, p = s.path file

section

variable {r : Refresh} {s : Suite} {listing : Listing} {report : RefreshReport} {cwd : List Name}
  {w w' : World}

/-- **Copying the files** only changes what the paths lead to, but for new directories. -/
theorem works_overlay_overlaid (r : Refresh) (s : Suite) (listing : Listing) (base : Disk) :
    (overlay r s listing).Works cwd (fun d => d = base) fun report d =>
      base.Overlaid cwd (IsTarget r s base cwd report) d := by
  refine works_overlay r s listing ?_ (fun _ _ _ hd => hd)
    (fun _ d p hd => hd.grows (Disk.makeDirAll_grows d cwd p)) ?_
  · rintro d rfl
    exact (Disk.overlaid_copyTree d cwd _ _).mono fun p => .inl
  · intro report file d d' source hd hc
    refine (hd.mono fun p hp => ?_).copyFile (.inr ⟨file, by simp, rfl⟩) hc
    exact hp.imp_right fun ⟨f, hf, hp⟩ => ⟨f, List.mem_append_left _ hf, hp⟩

/-- **Replacing the files** removes the tree, and lays the others over what is left. -/
theorem rewrite_overlaid (h : (rewrite r s listing).run.run w = (.ok report, w')) :
    (w.disk.removeTree w.cwd (suiteTree s)).1 = .ok () ∧
      (w.disk.removeTree w.cwd (suiteTree s)).2.Overlaid w.cwd
        (IsTarget r s (w.disk.removeTree w.cwd (suiteTree s)).2 w.cwd report) w'.disk := by
  rw [rewrite, Op.run_bind, Op.removeTree, Op.run_changePartly, ← suiteTree] at h
  cases hremoved : (w.disk.removeTree w.cwd (suiteTree s)).1 with
  | error e =>
    rw [hremoved] at h
    cases congrArg Prod.fst h
  | ok u =>
    simp only [hremoved, Except.mapError] at h
    refine ⟨rfl, ?_⟩
    obtain ⟨-, -, hlaid⟩ := works_overlay_overlaid r s listing
      (w.disk.removeTree w.cwd (suiteTree s)).2
      { w with disk := (w.disk.removeTree w.cwd (suiteTree s)).2 } rfl
    rw [h] at hlaid
    exact hlaid rfl report rfl

/-- What is left when a tree was removed. -/
theorem file_iff_of_removeTree {d : Disk} {p : Path} (h : (d.removeTree cwd p).1 = .ok ())
    (q : List Name) (data : FileData) :
    (d.removeTree cwd p).2.kindAt q = some (.file data) ↔
      d.kindAt q = some (.file data) ∧
        ∀ tree n, d.locate cwd p false = .ok (tree, n) → ¬ tree <+: q := by
  rcases (Disk.removeTree_spec d cwd p).1 h with ⟨⟨e, he⟩, hsame⟩ | ⟨tree, n, hl, hne, herased⟩
  · simp [hsame, he]
  · rw [herased, Disk.kindAt_tick, Disk.kindAt_erase hne]
    by_cases hin : tree <+: q
    · simp [hin, hl]
    · simp [hin, hl]

end

/-- **What a refresh leaves of the files.**  When the changes are marked, a place to which nothing
was copied holds the file that it held after the cleaning, unless it is in the removed tree. -/
theorem run_files (runner : Runner) (prompt : Prompt) (r : Refresh) (s : Suite) (w : World) :
    ∃ listing tip report push steps finished,
      Conducted runner prompt r s (plan r s listing tip report push) w steps
        ((run runner prompt r s).run.run w).2 finished ∧
      ∀ u, (.run (addCommand s), u) ∈ steps → ∃ v, (.rewrite listing report, v) ∈ steps ∧
        ∀ q, (∀ p, IsTarget r s (v.disk.removeTree v.cwd (suiteTree s)).2 v.cwd report p →
            ¬ u.disk.LeadsToFile v.cwd p q) →
          ∀ data, u.disk.kindAt q = some (.file data) ↔
            v.disk.kindAt q = some (.file data) ∧
              ∀ tree n, v.disk.locate v.cwd (suiteTree s) false = .ok (tree, n) →
                ¬ tree <+: q := by
  obtain ⟨_, _, steps, finished, ⟨listing, tip, report, push, rfl, rfl⟩, hconducted, -⟩ :=
    run_follows runner prompt r s w
  refine ⟨listing, tip, report, push, steps, finished, hconducted, fun u hu => ?_⟩
  obtain ⟨v, hv, hsucceeds, rfl⟩ : ∃ v, (.rewrite listing report, v) ∈ steps ∧
      (Act.rewrite listing report).Succeeds runner prompt r s v ∧
        u = (Act.rewrite listing report).after runner prompt r s v := by
    -- replacing comes right before marking, and the plan marks the changes only once
    refine Conducted.exists_before hconducted hu ?_ nofun ?_
    · simp [opening, addCommand, cleanCommand, Git.invocation_inj]
    · cases push <;>
        simp [ending, addCommand, commitCommand, pushCommand, mergeCommand, Git.invocation_inj]
  have hrun : (rewrite r s listing).run.run v =
      (.ok report, ((rewrite r s listing).run.run v).2) := Prod.ext hsucceeds rfl
  obtain ⟨hremoved, hlaid⟩ := rewrite_overlaid hrun
  refine ⟨v, hv, fun q hq data => ?_⟩
  exact (hlaid.file_iff hq data).trans (file_iff_of_removeTree hremoved q data)

/-! ### A file that is to be kept -/

/-- A suite at the root of the disk, whose list of inlined files is beside it. -/
def smallSuite : Suite :=
  { config := { suite := { dir := ⟨"/"⟩ }, gate := { copyrightOverrides := ⟨"list"⟩ } } }

/-- The path of a file that only holds the code of tests. -/
def testFile : Path := ⟨"graalpython/test_a.py"⟩

/-- The list has one file, and beside the suite stand the source trees. -/
def smallWorld : World :=
  World.start ((Disk.empty ⟨10⟩).plant []
    [⟨⟨"list"⟩, .file (testFile.text ++ ",python.copyright\n").toUTF8 false none⟩,
      ⟨testFile, .file "pass\n".toUTF8 false none⟩,
      ⟨⟨"cpython/Lib/os.py"⟩, .file "import abc\n".toUTF8 false none⟩]) [] ⟨"/tmp"⟩ ∅

/-- Programs that succeed and do nothing. -/
def idleTools : Runner := fun _ w =>
  ⟨w.disk, .ok ToolOutput.success, ByteArray.empty, ByteArray.empty, []⟩

/-- A user who goes on, and does not send the branch. -/
def patientUser : Prompt where
  pause _ _ := .ok ()
  confirm _ _ := .ok false

/-- A refresh from the source trees beside the suite. -/
def smallRefresh : Refresh :=
  ⟨⟨"/cpython"⟩, ⟨"/pypy"⟩, "all"⟩

/-- **A file that is to be kept is removed,** here the only one on the list.  It is there until
everything is cleaned, which leaves it alone, and gone when the changes are marked. -/
theorem kept_file_removed :
    Treatment.ofCpython smallWorld.disk [] smallRefresh.cpython testFile = .keep ∧
      ((run idleTools patientUser smallRefresh smallSuite).run.run smallWorld).2.calls.map
          (fun c => (c.invocation.args.head?, c.disk.isFile [] (smallSuite.path testFile))) =
        [(some "status", true), (some "rev-parse", true), (some "checkout", true),
          (some "clean", true), (some "add", false), (some "commit", false),
          (some "checkout", false), (some "merge", false)] := by
  decide +kernel

end SuiteGate.Vendored.Refresh
