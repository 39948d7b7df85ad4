import SuiteGate.Proofs.Disk.Outside
import SuiteGate.Proofs.Disk.Spellings
import SuiteGate.Proofs.Vendored.Keeping
import SuiteGate.Proofs.Vendored.Sources
/-!
# What a refresh takes over

A refresh treats the files one after the other, while it writes into the suite.  As long as the
source trees lie outside of the suite (`Refresh.Ready`), what becomes of a file is settled before
the first one is treated (`findSource_congr`), and what was copied stays until it is copied over
(`Progress.copied`).

The headline is `run_takes`.  The report of a refresh names the files that have a source, and those
that have none, in their order; when the changes are marked, each file is a copy of its source, and
the library is there, where it was not written over (`Refreshed`).

A source tree that lies outside of the suite does not do if the path to it leads through the tree
that is removed (`lost_source`).
-/

namespace SuiteGate.Vendored

/-- **The same is found** in all disks in which the path to a tree leads to the same. -/
theorem findSource_congr {d d' : Disk} {cwd : List Name} {root : Path} (name : String)
    (hlstat : ∀ n, d'.lstat cwd root = .ok n ↔ d.lstat cwd root = .ok n)
    (hstat : ∀ n, d'.stat cwd root = .ok n ↔ d.stat cwd root = .ok n) :
    findSource d' cwd root name = findSource d cwd root name := by
  rw [findSource, findSource, Disk.sortedWalk, Disk.sortedWalk, Disk.walkWith, Disk.walkWith]
  -- where the path leads nowhere, the errors can differ, but nothing is found
  cases hl : d.lstat cwd root with
  | error e =>
    cases hl' : d'.lstat cwd root with
    | error e' => rfl
    | ok n => cases hl.symm.trans ((hlstat n).mp hl')
  | ok n =>
    rw [(hlstat n).mpr hl]
    cases n with
    | file data => rfl
    | dir l es => rfl
    | link target =>
      cases hs : d.stat cwd root with
      | ok m => rw [(hstat m).mpr hs]
      | error e =>
        cases hs' : d'.stat cwd root with
        | error e' => rfl
        | ok m => cases hs.symm.trans ((hstat m).mp hs')

namespace Refresh

/-- The name of the tree that is removed and made anew. -/
def treeName : Name := ⟨"graalpython", by decide⟩

/-- The library in the source tree. -/
def library (r : Refresh) : Path :=
  r.cpython.child "Lib"

/-- The suite has no links in it, and the source trees lie outside of it. -/
structure Ready (r : Refresh) (s : Suite) (d : Disk) (cwd home : List Name) : Prop where
  grounds : d.Grounds cwd s.dir home
  roots : ∀ o, d.Outside cwd home treeName (r.root o)
  library : d.Outside cwd home treeName r.library

theorem ready_iff {r : Refresh} {s : Suite} {d : Disk} {cwd home : List Name} :
    r.Ready s d cwd home ↔ d.Grounds cwd s.dir home ∧ d.Outside cwd home treeName r.pypy ∧
      d.Outside cwd home treeName r.cpython ∧ d.Outside cwd home treeName r.library := by
  constructor
  · exact fun h => ⟨h.grounds, h.roots .pypy, h.roots .cpython, h.library⟩
  · rintro ⟨hgrounds, hpypy, hcpython, hlibrary⟩
    exact ⟨hgrounds, fun | .pypy => hpypy | .cpython => hcpython, hlibrary⟩

instance (r : Refresh) (s : Suite) (d : Disk) (cwd home : List Name) :
    Decidable (r.Ready s d cwd home) :=
  decidable_of_iff _ ready_iff.symm

/-- Those of some files that are taken over. -/
def taken (r : Refresh) (d : Disk) (cwd : List Name) (es : List (Origin × Path)) :
    List (Origin × Path) :=
  es.filter fun e => !isTestFile e.2 && (r.source? d cwd e).isSome

/-- Those of some files that would be taken over, but have no source. -/
def lacking (r : Refresh) (d : Disk) (cwd : List Name) (es : List (Origin × Path)) :
    List (Origin × Path) :=
  es.filter fun e => !isTestFile e.2 && (r.source? d cwd e).isNone

section

variable {r : Refresh} {s : Suite} {base d d' : Disk} {cwd home : List Name}
  {done : List (Origin × Path)} {e e' : Origin × Path} {report : RefreshReport} {p p' : Path}

theorem source?_eq (hready : r.Ready s base cwd home)
    (h : base.Confined cwd s.dir home treeName d) (e : Origin × Path) :
    r.source? d cwd e = r.source? base cwd e := by
  have hsame : ∀ name, findSource d cwd (r.root e.1) name = findSource base cwd (r.root e.1) name :=
    fun name => findSource_congr name
      (fun n => by simp only [Disk.lstat_eq_ok_iff, (hready.roots e.1).locate_iff h])
      (fun n => by simp only [Disk.stat_eq_ok_iff, (hready.roots e.1).locate_iff h])
  simp only [source?, hsame]

/-- A source does not change. -/
theorem fixed_of_source? (hready : r.Ready s base cwd home) (hp : r.source? base cwd e = some p) :
    base.Fixed cwd s.dir home treeName p := by
  obtain ⟨name, -, hfound⟩ := Option.bind_eq_some_iff.mp hp
  obtain ⟨-, hfound⟩ := Option.ite_none_right_eq_some.mp hfound
  obtain ⟨rel, data, hreaches, rfl⟩ := exists_reaches_of_findSource hfound
  exact (hready.roots e.1).fixed.below hready.grounds hreaches rfl

theorem names_ne_nil_of_source? (hp : r.source? base cwd e = some p) : e.2.names ≠ [] := by
  obtain ⟨name, hname, -⟩ := Option.bind_eq_some_iff.mp hp
  obtain ⟨t, ht, -⟩ := Option.map_eq_some_iff.mp hname
  obtain ⟨x, hx, -⟩ := Path.getLast?_names_of_fileName? ht
  rintro hnil
  simp [hnil] at hx

/-- **Files at the same place** have the same source. -/
theorem source?_congr (hnames : e.2.names = e'.2.names) (hp : r.source? base cwd e = some p)
    (hp' : r.source? base cwd e' = some p') : p = p' := by
  obtain ⟨name, hname, hfound⟩ := Option.bind_eq_some_iff.mp hp
  obtain ⟨name', hname', hfound'⟩ := Option.bind_eq_some_iff.mp hp'
  obtain ⟨htakes, hfound⟩ := Option.ite_none_right_eq_some.mp hfound
  obtain ⟨htakes', hfound'⟩ := Option.ite_none_right_eq_some.mp hfound'
  obtain rfl : name = name' := by
    obtain ⟨t, ht, rfl⟩ := Option.map_eq_some_iff.mp hname
    obtain ⟨t', ht', rfl⟩ := Option.map_eq_some_iff.mp hname'
    obtain ⟨x, hx, rfl⟩ := Path.getLast?_names_of_fileName? ht
    obtain ⟨x', hx', rfl⟩ := Path.getLast?_names_of_fileName? ht'
    obtain rfl : x = x' := Option.some.inj (hx.symm.trans (hnames ▸ hx'))
    rfl
  rw [Origin.eq_of_takes htakes htakes', hfound'] at hfound
  exact (Option.some.inj hfound).symm

/-! ### File after file -/

/-- A file of the library that does not change. -/
def IsLibraryFile (r : Refresh) (s : Suite) (base : Disk) (cwd home rel : List Name) : Prop :=
  ∃ n, base.Reaches cwd r.library rel n ∧ rel ≠ [] ∧ n.isDir = false ∧
    base.Fixed cwd s.dir home treeName (r.library.below rel)

/-- What holds of the report and of the disk when some of the files were treated. -/
structure Progress (r : Refresh) (s : Suite) (base : Disk) (cwd home : List Name)
    (done : List (Origin × Path)) (report : RefreshReport) (d : Disk) : Prop where
  confined : base.Confined cwd s.dir home treeName d
  updated : report.updated = (r.taken base cwd done).map Prod.snd
  missing : report.missing = (r.lacking base cwd done).map Prod.snd
  files : ∀ e ∈ r.taken base cwd done, ∀ p, r.source? base cwd e = some p →
    base.Copied cwd p (s.path e.2) (home ++ e.2.names) d
  library : ∀ rel, IsLibraryFile r s base cwd home rel →
    base.CopiedBelow cwd r.library (s.path libraryDir) home libraryDir.names rel d ∨
      ∃ e ∈ r.taken base cwd done, e.2.names = libraryDir.names ++ rel

namespace Progress

/-- Directories were made for the next file. -/
theorem makeParents (h : Progress r s base cwd home done report d)
    (hp : Disk.Along cwd s.dir p) :
    Progress r s base cwd home done report (d.makeParents cwd p).2 where
  confined := h.confined.makeParents hp
  updated := h.updated
  missing := h.missing
  files e he p hp := (h.files e he p hp).grows (Disk.makeParents_grows d cwd _)
  library rel hrel := (h.library rel hrel).imp_left fun hcopied =>
    Disk.Copied.grows hcopied (Disk.makeParents_grows d cwd _)

/-- A file was kept. -/
theorem kept (h : Progress r s base cwd home done report d) (htest : isTestFile e.2 = true) :
    Progress r s base cwd home (done ++ [e]) report d := by
  have htaken : r.taken base cwd (done ++ [e]) = r.taken base cwd done := by
    simp [taken, htest]
  have hlacking : r.lacking base cwd (done ++ [e]) = r.lacking base cwd done := by
    simp [lacking, htest]
  refine ⟨h.confined, ?_, ?_, ?_, ?_⟩
  · rw [htaken, h.updated]
  · rw [hlacking, h.missing]
  · rw [htaken]
    exact h.files
  · rw [htaken]
    exact h.library

/-- A file has no source. -/
theorem lacked (h : Progress r s base cwd home done report d) (htest : isTestFile e.2 = false)
    (hsource : r.source? base cwd e = none) :
    Progress r s base cwd home (done ++ [e])
      { report with missing := report.missing ++ [e.2] } d := by
  have htaken : r.taken base cwd (done ++ [e]) = r.taken base cwd done := by
    simp [taken, hsource]
  have hlacking : r.lacking base cwd (done ++ [e]) = r.lacking base cwd done ++ [e] := by
    simp [lacking, htest, hsource]
  refine ⟨h.confined, ?_, ?_, ?_, ?_⟩
  · rw [htaken, h.updated]
  · rw [hlacking, h.missing, List.map_append, List.map_singleton]
  · rw [htaken]
    exact h.files
  · rw [htaken]
    exact h.library

/-- **A file was copied** from its source. -/
theorem copied (h : Progress r s base cwd home done report d) (hready : r.Ready s base cwd home)
    (hinner : e.2.Inner) (htest : isTestFile e.2 = false) (hp : r.source? base cwd e = some p)
    (hc : d.copyFile cwd p (s.path e.2) = .ok d') :
    Progress r s base cwd home (done ++ [e])
      { report with updated := report.updated ++ [e.2] } d' := by
  have htaken : r.taken base cwd (done ++ [e]) = r.taken base cwd done ++ [e] := by
    simp [taken, htest, hp]
  have hlacking : r.lacking base cwd (done ++ [e]) = r.lacking base cwd done := by
    simp [lacking, hp]
  have hplace : Disk.Continues cwd s.dir (s.path e.2) e.2.names :=
    (Disk.Continues.refl cwd s.dir).join hinner
  obtain ⟨hconfined, hwritten, hcopied⟩ := h.confined.copied_of_copyFile
    (fixed_of_source? hready hp).steady hplace (names_ne_nil_of_source? hp) hc
  refine ⟨hconfined, ?_, ?_, fun e' he' p' hp' => ?_, fun rel hrel => ?_⟩
  · rw [htaken, h.updated, List.map_append, List.map_singleton]
  · rw [hlacking, h.missing]
  · rw [htaken, List.mem_append, List.mem_singleton] at he'
    rcases he' with he' | rfl
    · have hold := h.files e' he' p' hp'
      by_cases hnames : e'.2.names = e.2.names
      · -- an older copy at the place was written over with what it held
        obtain rfl := source?_congr hnames hp' hp
        exact ⟨hwritten.leadsToFile hold.leads, hnames ▸ hcopied.copy⟩
      · exact hold.written hwritten (by simpa using hnames)
    · obtain rfl : p = p' := Option.some.inj (hp.symm.trans hp')
      exact hcopied
  · rw [htaken]
    rcases h.library rel hrel with hlibrary | ⟨e', he', hnames⟩
    · by_cases hnames : e.2.names = libraryDir.names ++ rel
      · exact .inr ⟨e, by simp, hnames⟩
      · exact .inl (Disk.Copied.written hlibrary hwritten (by simpa using Ne.symm hnames))
    · exact .inr ⟨e', List.mem_append_left _ he', hnames⟩

end Progress

/-- **One more file is treated.** -/
theorem works_treatment (hready : r.Ready s base cwd home) (hinner : e.2.Inner) :
    (refreshFile s report (e.2, r.treatment e.1)).Works cwd (Progress r s base cwd home done report)
      (Progress r s base cwd home (done ++ [e])) := by
  refine .bind (.ask_eq _) fun treatment => ?_
  -- the disk has changed, but not the sources
  have hsource : ∀ d, Progress r s base cwd home done report d →
      r.source? d cwd e = r.source? base cwd e := fun d hd => source?_eq hready hd.confined e
  have hplace : Disk.Along cwd s.dir (s.path e.2) :=
    ((Disk.Continues.refl cwd s.dir).join hinner).along
  cases treatment with
  | keep => exact .pure fun d ⟨hd, htreat⟩ => hd.kept (r.treatment_eq_keep_iff.mp htreat.symm)
  | missing =>
    refine .bind (.warn _) fun _ => .pure fun d ⟨hd, htreat⟩ => ?_
    obtain ⟨htest, hp⟩ := r.treatment_eq_missing_iff.mp htreat.symm
    exact hd.lacked htest (hsource d hd ▸ hp)
  | copy source =>
    have hcopy : ∀ d d', Progress r s base cwd home done report d ∧
        isTestFile e.2 = false ∧ r.source? base cwd e = some source →
          d.copyFile cwd source (s.path e.2) = .ok d' → Progress r s base cwd home (done ++ [e])
            { report with updated := report.updated ++ [e.2] } d' :=
      fun d d' ⟨hd, htest, hp⟩ hc => hd.copied hready hinner htest hp hc
    refine .bind (.makeParents fun d ⟨hd, htreat⟩ => ?_) fun _ =>
      .bind (.change hcopy) fun _ => .pure fun _ => id
    obtain ⟨htest, hp⟩ := r.treatment_eq_copy_iff.mp htreat.symm
    exact ⟨hd.makeParents hplace, htest, hsource d hd ▸ hp⟩

/-- **The library is copied, and then the files are treated.** -/
theorem works_overlay_progress (hready : r.Ready s base cwd home) {listing : Listing}
    (hinner : ∀ e ∈ listing.occurrences, e.2.Inner) :
    (overlay r s listing).Works cwd (base.Confined cwd s.dir home treeName)
      (Progress r s base cwd home listing.occurrences) := by
  have htree : (discard <| Op.copyTree (r.cpython.child "Lib") (s.path libraryDir)).Works cwd
      (base.Confined cwd s.dir home treeName)
      fun _ => Progress r s base cwd home [] ⟨[], [], false⟩ := by
    rintro w rfl
    rw [Op.run_discard_copyTree]
    refine ⟨rfl, rfl, fun hd _ hok => ?_⟩
    rcases hc : w.disk.copyTree w.cwd (r.cpython.child "Lib") (s.path libraryDir) with ⟨e | n, d⟩
    · rw [hc] at hok
      cases hok
    · have hplace : Disk.Continues w.cwd s.dir (s.path libraryDir) libraryDir.names :=
        (Disk.Continues.refl w.cwd s.dir).join (by decide)
      obtain ⟨hconfined, hcopied⟩ := hd.copyTree hplace hc
      refine ⟨hconfined, rfl, rfl, by simp [taken], fun rel ⟨n, hreaches, hne, hfile, hfixed⟩ => ?_⟩
      -- nothing but the library was copied so far
      exact .inl (hcopied rel n ((hready.library.fixed.reaches_iff hd).mpr hreaches) hne hfile
        hfixed.steady)
  refine .bind htree fun _ => ?_
  rw [files_eq, List.foldlM_map]
  exact Op.Works.foldlM_along (fun done report e he => works_treatment hready (hinner e he)) [] _

/-- **Replacing the files** takes over those that have a source. -/
theorem works_rewrite_progress (hready : r.Ready s base cwd home) {listing : Listing}
    (hinner : ∀ e ∈ listing.occurrences, e.2.Inner) :
    (rewrite r s listing).Works cwd (fun d => d = base)
      (Progress r s base cwd home listing.occurrences) := by
  have htree : (Op.removeTree (s.path ⟨"graalpython"⟩)).Works cwd (fun d => d = base)
      fun _ => base.Confined cwd s.dir home treeName := by
    refine .changePartly fun d hd hremoved => ?_
    subst hd
    exact hready.grounds.removeTree hremoved
  exact .bind htree fun _ => works_overlay_progress hready hinner

end

/-! ### Every refresh -/

/-- **What a refresh took over** from one world to the next. -/
structure Refreshed (r : Refresh) (s : Suite) (listing : Listing) (v u : World)
    (report : RefreshReport) : Prop where
  /-- The files that have a source are reported as updated, those aside that only hold the code of
  tests, in their order. -/
  updated : report.updated = (r.taken v.disk v.cwd listing.occurrences).map Prod.snd
  /-- The others are reported as missing, in their order. -/
  missing : report.missing = (r.lacking v.disk v.cwd listing.occurrences).map Prod.snd
  /-- A file has a source if a file of its name in the source tree, with an ending that goes with
  the tree, can be reached. -/
  source_iff : ∀ e, (∃ p, r.source? v.disk v.cwd e = some p) ↔
    ∃ name, sourceName? e.2 = some name ∧ e.1.takes name = true ∧
      HoldsFile v.disk v.cwd (r.root e.1) name
  /-- A file that was taken over reads like its source. -/
  contents : ∀ e ∈ listing.occurrences, isTestFile e.2 = false →
    ∀ p, r.source? v.disk v.cwd e = some p → ∃ bytes,
      u.disk.readFile u.cwd (s.path e.2) = .ok bytes ∧ v.disk.readFile v.cwd p = .ok bytes
  /-- A file of the library reads like the original, unless another file was copied to its place.
  A link in the library counts as the file that it leads to, if that is outside of the suite. -/
  library : ∀ rel n home, v.disk.Reaches v.cwd r.library rel n → rel ≠ [] → n.isDir = false →
    v.disk.Grounds v.cwd s.dir home →
    (n.isLink = true → v.disk.Outside v.cwd home treeName (r.library.below rel)) →
      (∃ bytes, u.disk.readFile u.cwd ((s.path libraryDir).join (Path.ofJoin rel)) = .ok bytes ∧
        v.disk.readFile v.cwd (r.library.below rel) = .ok bytes) ∨
      ∃ f ∈ report.updated, f.names = libraryDir.names ++ rel

/-- Nothing that a refresh treats leads up, if nothing on the list does. -/
theorem inner_of_mem_occurrences {l : Listing} (h : ∀ f ∈ l.cpython ++ l.pypy, f.Inner) :
    ∀ e ∈ l.occurrences, e.2.Inner := by
  have hextra : ∀ f ∈ extraFiles, f.Inner := by decide +kernel
  simp only [List.mem_append] at h
  rintro ⟨o, f⟩ he
  simp only [Listing.occurrences, List.mem_append, List.mem_map, Prod.mk.injEq] at he
  rcases he with ⟨f, hf | hf, -, rfl⟩ | ⟨f, hf, -, rfl⟩
  · exact h f (.inr hf)
  · exact hextra f hf
  · exact h f (.inl hf)

/-- The world in which the files are replaced, if all that comes first succeeds. -/
def cleaned (runner : Runner) (prompt : Prompt) (r : Refresh) (s : Suite) (w : World) : World :=
  (opening s ⟨[], []⟩ "").foldl (fun v a => a.after runner prompt r s v) w

section

variable {r : Refresh} {s : Suite} {w w' : World} {home : List Name} {listing : Listing}
  {report : RefreshReport}

/-- **Replacing the files** takes over what is in the source trees. -/
theorem refreshed_of_rewrite (hready : r.Ready s w.disk w.cwd home)
    (hinner : ∀ e ∈ listing.occurrences, e.2.Inner)
    (h : (rewrite r s listing).run.run w = (.ok report, w')) :
    Refreshed r s listing w w' report := by
  obtain ⟨hcwd, -, hprogress⟩ := works_rewrite_progress hready hinner w rfl
  rw [h] at hcwd hprogress
  have hdone := hprogress rfl report rfl
  refine ⟨hdone.updated, hdone.missing, fun e => r.exists_source_iff, fun e he htest p hp => ?_,
    fun rel n home' hreaches hne hfile hgrounds hlink => ?_⟩
  · rw [hcwd]
    exact (hdone.files e (List.mem_filter.mpr ⟨he, by simp [htest, hp]⟩) p hp).readFile_eq
  · -- a path leads to one place only
    obtain rfl : home' = home := by
      obtain ⟨_, hl, -⟩ := hgrounds.leads
      obtain ⟨_, hl', -⟩ := hready.grounds.leads
      exact (Prod.mk.inj (Except.ok.inj (hl.symm.trans hl'))).1
    -- the file is where the look-up of the library ends, but what a link leads to can be anywhere
    have hfixed : w.disk.Fixed w.cwd s.dir home' treeName (r.library.below rel) := by
      cases hn : n.isLink with
      | true => exact (hlink hn).fixed
      | false => exact hready.library.fixed.below hgrounds hreaches hn
    rw [hcwd]
    rcases hdone.library rel ⟨n, hreaches, hne, hfile, hfixed⟩ with hcopied | ⟨e, he, hnames⟩
    · exact .inl (Disk.Copied.readFile_eq hcopied)
    · refine .inr ⟨e.2, ?_, hnames⟩
      rw [hdone.updated]
      exact List.mem_map_of_mem he

end

/-- **What a refresh takes over.**  If the list of a suite names no file above or outside of it, and
the suite has no links in it, and the source trees are outside of it, then a refresh that succeeds
has taken over, when the changes are marked, what was in the source trees. -/
theorem run_takes (runner : Runner) (prompt : Prompt) (r : Refresh) (s : Suite) (w : World)
    (home : List Name) {report : RefreshReport}
    (hok : ((run runner prompt r s).run.run w).1 = .ok report)
    (hready : r.Ready s (cleaned runner prompt r s w).disk (cleaned runner prompt r s w).cwd home)
    (hinner : ∀ text, w.disk.textAt w.cwd (listFile s) = .ok text →
      ∀ f ∈ (Listing.parse text).cpython ++ (Listing.parse text).pypy, f.Inner) :
    ∃ text tip report₀ push steps u, w.disk.textAt w.cwd (listFile s) = .ok text ∧
      Conducted runner prompt r s (plan r s (Listing.parse text) tip report₀ push) w steps
        ((run runner prompt r s).run.run w).2 True ∧
      (.run (addCommand s), u) ∈ steps ∧
      Refreshed r s (Listing.parse text) (cleaned runner prompt r s w) u report := by
  obtain ⟨_, _, steps, finished, ⟨listing, tip, report₀, push, rfl, rfl⟩, hconducted, hresult⟩ :=
    run_follows runner prompt r s w
  obtain ⟨hfinished, rfl⟩ := (hresult report).mp hok
  obtain rfl : finished = True := eq_true hfinished
  have hall := hconducted.finished_iff.mp trivial
  obtain ⟨text, htext, rfl⟩ := hall _ (hconducted.mem_of_finished [.wait intro] trivial)
  -- what is on the list and what was printed does not matter for the worlds that come next
  have hcleaned : (opening s (Listing.parse text) tip).foldl
      (fun v a => a.after runner prompt r s v) w = cleaned runner prompt r s w := rfl
  have hsucceeds := hall _ (hconducted.mem_of_finished (opening s _ tip) trivial)
  have hadd := hconducted.mem_of_finished
    (opening s _ tip ++ [.rewrite (Listing.parse text) report₀]) trivial
  rw [hcleaned] at hsucceeds
  rw [List.foldl_append, hcleaned, List.foldl_cons, List.foldl_nil, Act.after] at hadd
  obtain ⟨u, hu⟩ : ∃ u, (rewrite r s (Listing.parse text)).run.run (cleaned runner prompt r s w) =
      (.ok report₀, u) := ⟨_, Prod.ext hsucceeds rfl⟩
  rw [hu] at hadd
  have hdone := refreshed_of_rewrite hready (inner_of_mem_occurrences (hinner text htext)) hu
  exact ⟨text, tip, report₀, push, steps, u, htext, hconducted, hadd, hdone.updated, hdone.missing,
    hdone.source_iff, hdone.contents, hdone.library⟩

/-! ### A suite beside its source trees -/

/-- A suite whose list of inlined files is in its directory. -/
def sideSuite : Suite :=
  { config := { suite := { dir := ⟨"/suite"⟩ }, gate := { copyrightOverrides := ⟨"list"⟩ } } }

/-- The place of the suite. -/
def sidePlace : List Name := [⟨"suite", by decide⟩]

/-- A file that is taken over from PyPy. -/
def inlinedFile : Path := ⟨"graalpython/a.py"⟩

/-- The suite has one inlined file, and beside it stand the source trees. -/
def sideWorld : World :=
  World.start ((Disk.empty ⟨10⟩).plant []
    [⟨⟨"suite/list"⟩, .file (inlinedFile.text ++ ",pypy.copyright\n").toUTF8 false none⟩,
      ⟨⟨"suite/graalpython/x"⟩, .dir⟩,
      ⟨⟨"cpython/Lib/os.py"⟩, .file "import abc\n".toUTF8 false none⟩,
      ⟨⟨"pypy/a.py"⟩, .file "pass\n".toUTF8 false none⟩]) [] ⟨"/tmp"⟩ ∅

theorem sideWorld_list :
    (sideWorld.disk.textAt sideWorld.cwd (listFile sideSuite)).map Listing.parse =
      .ok ⟨[], [inlinedFile]⟩ := by
  decide +kernel

/-- The file is reported as updated, and is a copy of its source when the changes are marked. -/
theorem run_takes_inlined :
    ((run idleTools patientUser smallRefresh sideSuite).run.run sideWorld).1 =
        .ok ⟨[inlinedFile], extraFiles, false⟩ ∧
      ∃ tip report₀ push steps u,
        Conducted idleTools patientUser smallRefresh sideSuite
          (plan smallRefresh sideSuite ⟨[], [inlinedFile]⟩ tip report₀ push) sideWorld steps
          ((run idleTools patientUser smallRefresh sideSuite).run.run sideWorld).2 True ∧
        (.run (addCommand sideSuite), u) ∈ steps ∧
        Refreshed smallRefresh sideSuite ⟨[], [inlinedFile]⟩
          (cleaned idleTools patientUser smallRefresh sideSuite sideWorld) u
          ⟨[inlinedFile], extraFiles, false⟩ := by
  have hparse : ∀ text, sideWorld.disk.textAt sideWorld.cwd (listFile sideSuite) = .ok text →
      Listing.parse text = ⟨[], [inlinedFile]⟩ := by
    intro text htext
    have hlist := sideWorld_list
    rw [htext] at hlist
    exact Except.ok.inj hlist
  have hok : ((run idleTools patientUser smallRefresh sideSuite).run.run sideWorld).1 =
      .ok ⟨[inlinedFile], extraFiles, false⟩ := by
    decide +kernel
  have hready : smallRefresh.Ready sideSuite
      (cleaned idleTools patientUser smallRefresh sideSuite sideWorld).disk
      (cleaned idleTools patientUser smallRefresh sideSuite sideWorld).cwd sidePlace := by
    decide +kernel
  have hinner : ∀ f ∈ ([] : List Path) ++ [inlinedFile], f.Inner := by decide +kernel
  obtain ⟨text, tip, report₀, push, steps, u, htext, hrun⟩ :=
    run_takes idleTools patientUser smallRefresh sideSuite sideWorld sidePlace hok hready
      fun text htext => hparse text htext ▸ hinner
  exact ⟨hok, tip, report₀, push, steps, u, hparse text htext ▸ hrun⟩

/-- The refresh from the same trees, where the path to PyPy leads through the suite. -/
def windingRefresh : Refresh :=
  { smallRefresh with pypy := ⟨"/suite/graalpython/x/../../../pypy"⟩ }

/-- **A source that is lost** with the tree through which the path to it leads.  The file is in the
source tree, beside the suite, all the time, but when it is looked for, it is not found. -/
theorem lost_source :
    sideWorld.disk.Grounds [] sideSuite.dir sidePlace ∧ inlinedFile.Inner ∧
      sideWorld.disk.canonicalize [] windingRefresh.pypy = .ok ⟨"/pypy"⟩ ∧
      (windingRefresh.source? sideWorld.disk [] (.pypy, inlinedFile)).isSome = true ∧
      ((run idleTools patientUser windingRefresh sideSuite).run.run sideWorld).1 =
        .ok ⟨[], inlinedFile :: extraFiles, false⟩ ∧
      ∀ c ∈ ((run idleTools patientUser windingRefresh sideSuite).run.run sideWorld).2.calls,
        c.disk.isFile [] ⟨"/pypy/a.py"⟩ = true := by
  decide +kernel

end Refresh

end SuiteGate.Vendored
