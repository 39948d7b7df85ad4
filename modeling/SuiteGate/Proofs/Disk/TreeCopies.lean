import SuiteGate.Disk.Planting
import SuiteGate.Proofs.Disk.Making
import SuiteGate.Proofs.Disk.Outside
/-!
# Copying a tree over another

A tree is copied to a destination apart from it, where something may be already.  Afterwards it is
laid over what was there (`Disk.LaidOver`): its directories are there and copies of its files, and
nothing else has changed but for directories that were made on the way to the destination.

The walk of the tree is copied item by item, and what was laid so far is a stage of it
(`Disk.Stage`).  At each stage the destination's path leads to its directory, and a directory comes
before its entries in a walk (`Node.walk_nested`), so an item is copied below a directory that is
there, which only fails if something of another sort stands at its place (`Stage.Ready`).  The
number of files is that of the items that are not directories (`Node.countP_walk`).

The headline is `copyTree_spec`.  Nothing stands against a copy (`Disk.Fits`) if the tree can be
read, the destination's directory can be made, neither side has a directory where the other has
something else, and what is missing at the destination is missing in a writable directory.  A
directory that was not there before can be written to at every stage (`Stage.isWritable`).
-/

namespace SuiteGate.Disk

/-! ### Copying one item -/

section

variable {d d' : Disk} {cwd : List Name} {source target : Path} {item : WalkItem}

/-- A directory is copied by making it. -/
theorem copyItem_of_isDir (hdir : item.node.isDir = true) :
    d.copyItem cwd target item =
      ((d.makeDirAll cwd (target.join (Path.ofJoin item.below))).1.map fun _ => false,
        (d.makeDirAll cwd (target.join (Path.ofJoin item.below))).2) := by
  have hjoin : target.join ⟨Text.join "/" (item.below.map Name.text)⟩ =
      target.join (Path.ofJoin item.below) := rfl
  rw [copyItem, hjoin]
  rcases d.makeDirAll cwd (target.join (Path.ofJoin item.below)) with ⟨e | u, d'⟩ <;>
    simp only [hdir, if_true, Except.map]

/-- Anything else is copied as a file, below a directory that is there. -/
theorem copyItem_of_makeParents (hdir : item.node.isDir = false)
    (hparents : d.makeParents cwd (target.join (Path.ofJoin item.below)) = (.ok (), d)) :
    d.copyItem cwd target item =
      match d.copyFile cwd item.path (target.join (Path.ofJoin item.below)) with
      | .ok d' => (.ok true, d')
      | .error e => (.error e, d) := by
  have hjoin : target.join ⟨Text.join "/" (item.below.map Name.text)⟩ =
      target.join (Path.ofJoin item.below) := rfl
  rw [copyItem, hjoin]
  cases hcopied : d.copyFile cwd item.path (target.join (Path.ofJoin item.below)) <;>
    simp only [hdir, Bool.false_eq_true, if_false, hparents, hcopied]

end

/-! ### Laying a tree over another -/

/-- A tree can be laid over another: a path leads to a directory, and the way of the destination
ends at a place apart from it, where there are no links.  The destination's path leads by no missing
place in the tree, as what is made there is copied, too, and the links in the tree lead to files
that are not overlaid. -/
structure Lays (d : Disk) (cwd : List Name) (source target : Path) (home : List Name) (top : Node)
    (place : List Name) : Prop where
  found : d.locate cwd source false = .ok (home, top)
  isDir : top.isDir = true
  start : d.DirAt (origin cwd target)
  goal : (d.passage cwd target).goal = some place
  apart : Apart home place
  noLink : ∀ q, place <+: q → ¬ d.LinkAt q
  outside : ∀ q ∈ (d.passage cwd target).met, d.kindAt q = none → ¬ home <+: q
  links : ∀ rel n, top.get? rel = some n → n.isLink = true →
    ∃ original data, d.locate cwd (source.below rel) true = .ok (original, .file data) ∧
      ¬ place <+: original

/-- Nothing stands against it: the source can be read, the directory of the destination can be made,
what is missing is missing in a writable directory, and nothing is a directory on one side, or on
the way to the destination, and something else on the other. -/
structure Fits (d : Disk) (cwd : List Name) (source target : Path) (top : Node)
    (place : List Name) : Prop where
  readable : ∀ rel n, top.get? rel = some n →
    if n.isDir then (d.readDir cwd (source.below rel)).isOk = true
    else (d.readFile cwd (source.below rel)).isOk = true
  noNul : '\x00' ∉ target.text.toList
  leadsOn : ∀ q ∈ (d.passage cwd target).met, d.kindAt q ≠ none → d.LeadsOn q
  dot : target.EndsInDot → d.isDir cwd target = true
  agree : ∀ rel n m, top.get? rel = some n → d.get? (place ++ rel) = some m → n.isDir = m.isDir
  onWay : ∀ rel n, top.get? rel = some n → place ++ rel ∈ (d.passage cwd target).met →
    n.isDir = true
  writable : ∀ dir x, d.DirAt dir → d.kindAt (dir ++ [x]) = none →
    dir ++ [x] ∈ (d.passage cwd target).met ∨
      (∃ rel, dir ++ [x] = place ++ rel ∧ top.get? rel ≠ none) → d.isWritable dir = true

/-- A tree was laid over another: every directory of it is there, and a copy of every file, and
nothing else has changed but for directories that were made on the way. -/
structure LaidOver (d : Disk) (cwd : List Name) (source target : Path) (home : List Name)
    (top : Node) (place : List Name) (d' : Disk) : Prop where
  lands : d'.LandsAt cwd target place
  dirs : ∀ rel n, top.get? rel = some n → n.isDir = true → d'.DirAt (place ++ rel)
  files : ∀ rel n, top.get? rel = some n → n.isDir = false →
    d.CopyAt cwd (source.below rel) (place ++ rel) d'
  others : ∀ q, (∀ rel, q = place ++ rel → top.get? rel = none) →
    d'.kindAt q = d.kindAt q ∨
      d.kindAt q = none ∧ q ∈ (d.passage cwd target).met ∧ d'.DirAt q
  keeps : d.Keeps d'
  original : ∀ rel, d'.kindAt (home ++ rel) = d.kindAt (home ++ rel)

/-- From a base, the items of a walk that were seen are laid over a tree. -/
structure Stage (base : Disk) (cwd : List Name) (source target : Path) (place : List Name)
    (seen : Walk) (d : Disk) : Prop where
  lands : d.LandsAt cwd target place
  keeps : base.Keeps d
  dirs : ∀ item, .ok item ∈ seen → item.node.isDir = true → d.DirAt (place ++ item.below)
  files : ∀ item, .ok item ∈ seen → item.node.isDir = false →
    base.CopyAt cwd (source.below item.below) (place ++ item.below) d
  others : ∀ q, (∀ item, .ok item ∈ seen → q ≠ place ++ item.below) →
    d.kindAt q = base.kindAt q ∨
      base.kindAt q = none ∧ q ∈ (base.passage cwd target).met ∧ d.DirAt q
  made : ∀ q, base.kindAt q = none → d.DirAt q → d.isWritable q = true

section

variable {base d d' : Disk} {cwd home place : List Name} {source target : Path} {top : Node}
  {seen : Walk} {item : WalkItem}

namespace Lays

theorem locate (h : base.Lays cwd source target home top place) :
    base.locate cwd source true = .ok (home, top) := by
  refine locate_true_of_not_isLink h.found ?_
  obtain ⟨l, es, rfl⟩ := Node.exists_eq_dir h.isDir
  rfl

/-- What a walk of the tree comes by is held by it, and found where its names lead. -/
theorem of_mem_walk (h : base.Lays cwd source target home top place)
    (hitem : .ok item ∈ top.walk source []) :
    item.path = source.below item.below ∧ top.Holds item.below item.node := by
  obtain ⟨-, -, hget, -⟩ := locate_eq_ok_iff.mp h.found
  obtain ⟨rel, n, hn, hi⟩ :=
    (Node.mem_walk_iff top (Node.distinct_of_get? base.distinct hget)).mp hitem
  rw [Node.ok_mem_itemsAt.mp hi]
  exact ⟨rfl, hn⟩

/-- Nothing in the tree is overlaid. -/
theorem not_prefix (h : base.Lays cwd source target home top place) (rel : List Name) :
    ¬ place <+: home ++ rel := by
  intro hin
  rcases List.prefix_or_prefix_of_prefix hin (List.prefix_append home rel) with hpre | hpre
  · exact h.apart.2 hpre
  · exact h.apart.1 hpre

/-- **What is copied as a file** leads to a file that is not overlaid. -/
theorem exists_original (h : base.Lays cwd source target home top place) {rel : List Name}
    {n : Node} (hn : top.Holds rel n) (hdir : n.isDir = false)
    (hnul : '\x00' ∉ (source.below rel).text.toList) :
    ∃ original data, base.locate cwd (source.below rel) true = .ok (original, .file data) ∧
      ¬ place <+: original := by
  cases n with
  | dir l es => cases hdir
  | link dest => exact h.links rel _ hn.get? rfl
  | file data =>
    exact ⟨_, data, locate_below h.locate hn rfl hnul, h.not_prefix rel⟩

end Lays

namespace Stage

/-- **One more item** is laid over the tree. -/
theorem next (h : base.Stage cwd source target place seen d) (hkeeps : d.Keeps d')
    (helsewhere : ∀ q, q ≠ place ++ item.below → d'.kindAt q = d.kindAt q)
    (hdir : item.node.isDir = true → d'.DirAt (place ++ item.below))
    (hfile : item.node.isDir = false →
      base.CopyAt cwd (source.below item.below) (place ++ item.below) d')
    (hmade : d.kindAt (place ++ item.below) = none → d'.DirAt (place ++ item.below) →
      d'.isWritable (place ++ item.below) = true) :
    base.Stage cwd source target place (seen ++ [.ok item]) d' where
  lands := h.lands.of_keeps hkeeps
  keeps := h.keeps.trans hkeeps
  dirs other hother hisDir := by
    rcases List.mem_append.mp hother with hseen | hnew
    · exact hkeeps.dirAt (h.dirs other hseen hisDir)
    · obtain rfl : other = item := by simpa using hnew
      exact hdir hisDir
  files other hother hnotDir := by
    rcases List.mem_append.mp hother with hseen | hnew
    · have hcopy := h.files other hseen hnotDir
      by_cases hsame : other.below = item.below
      · -- the place is that of the item, which is no directory
        rw [hsame] at hcopy ⊢
        refine hfile (Bool.eq_false_iff.mpr fun hisDir => ?_)
        obtain ⟨data, -, hdata⟩ := hcopy
        obtain ⟨l, hl⟩ := hdir hisDir
        rcases hkeeps _ (ne_of_eq_of_ne hdata (by simp)) with hkept | ⟨-, data', hdata'⟩
        · cases hl.symm.trans (hkept.trans hdata)
        · cases hl.symm.trans hdata'
      · obtain ⟨data, hread, hdata⟩ := hcopy
        exact ⟨data, hread, (helsewhere _ (by simpa using hsame)).trans hdata⟩
    · obtain rfl : other = item := by simpa using hnew
      exact hfile hnotDir
  others q hq := by
    have hne : q ≠ place ++ item.below := hq item (by simp)
    have hseen := h.others q fun other hother => hq other (List.mem_append_left _ hother)
    simpa only [DirAt, helsewhere q hne] using hseen
  made q hnone hthere := by
    have hbefore : d.DirAt q → d'.isWritable q = true := fun hdirAt => by
      obtain ⟨l, hl⟩ := hdirAt
      rcases hkeeps q (by simp [hl]) with hsame | ⟨⟨data, hdata⟩, -⟩
      · rw [isWritable_congr hsame]
        exact h.made q hnone ⟨l, hl⟩
      · cases hl.symm.trans hdata
    by_cases hq : q = place ++ item.below
    · subst hq
      by_cases hfree : d.kindAt (place ++ item.below) = none
      · exact hmade hfree hthere
      · rcases hkeeps _ hfree with hsame | ⟨-, data, hdata⟩
        · exact hbefore (by rwa [DirAt, ← hsame])
        · obtain ⟨l, hl⟩ := hthere
          cases hl.symm.trans hdata
    · exact hbefore (by rwa [DirAt, ← helsewhere q hq])

/-- **A directory that was not there before** can be written to, and what was writable is so
still. -/
theorem isWritable (h : base.Stage cwd source target place seen d) {q : List Name}
    (hthere : d.DirAt q) (hbase : base.DirAt q → base.isWritable q = true) :
    d.isWritable q = true := by
  by_cases hnone : base.kindAt q = none
  · exact h.made q hnone hthere
  · obtain ⟨l, hl⟩ := hthere
    rcases h.keeps q hnone with hsame | ⟨-, data, hdata⟩
    · rw [isWritable_congr hsame]
      exact hbase ⟨l, hsame.symm.trans hl⟩
    · cases hl.symm.trans hdata

theorem not_linkAt (h : base.Stage cwd source target place seen d)
    (hbase : ∀ q, place <+: q → ¬ base.LinkAt q) {q : List Name} (hq : place <+: q) :
    ¬ d.LinkAt q := by
  rintro ⟨dest, hlink⟩
  by_cases hseen : ∃ other, .ok other ∈ seen ∧ q = place ++ other.below
  · obtain ⟨other, hother, rfl⟩ := hseen
    cases hdir : other.node.isDir with
    | true =>
      obtain ⟨l, hl⟩ := h.dirs other hother hdir
      cases hl.symm.trans hlink
    | false =>
      obtain ⟨data, -, hdata⟩ := h.files other hother hdir
      cases hdata.symm.trans hlink
  · rcases h.others q fun other hother heq => hseen ⟨other, hother, heq⟩ with
      hsame | ⟨-, -, l, hl⟩
    · exact hbase q hq ⟨dest, hsame.symm.trans hlink⟩
    · cases hl.symm.trans hlink

/-- **A file that is not overlaid** is found as before. -/
theorem locate (h : base.Stage cwd source target place seen d) {p : Path} {original : List Name}
    {data : FileData} (hl : base.locate cwd p true = .ok (original, .file data))
    (hout : ¬ place <+: original) : d.locate cwd p true = .ok (original, .file data) := by
  obtain ⟨-, -, hget, -⟩ := locate_eq_ok_iff.mp hl
  have hbase := kindAt_of_get? hget
  have hsame : d.kindAt original = some (.file data) := by
    rcases h.others original fun other _ heq => hout (heq ▸ List.prefix_append _ _) with
      hsame | ⟨hnone, -⟩
    · exact hsame.trans hbase
    · cases hnone.symm.trans hbase
  obtain ⟨n, hn, hk⟩ := kindAt_eq_some_iff.mp hsame
  exact h.keeps.locate hl (Node.kind_eq_file_iff.mp hk ▸ hn)

/-- Nothing stands against an item: no NUL in its names, nothing of another sort at its place, and
if nothing is there, a writable directory above it. -/
structure Ready (d : Disk) (source : Path) (place : List Name) (item : WalkItem) : Prop where
  noNul : ∀ x ∈ item.below, x.text.toList.contains '\x00' = false
  path : item.node.isDir = false → '\x00' ∉ (source.below item.below).text.toList
  dir : item.node.isDir = true → ¬ d.FileAt (place ++ item.below)
  file : item.node.isDir = false → ¬ d.DirAt (place ++ item.below)
  writable : d.kindAt (place ++ item.below) = none →
    d.isWritable (place ++ item.below).dropLast = true

/-- It is the turn of an item of the tree: it is the next to be copied, below a directory that is
there. -/
structure Turn (d : Disk) (source : Path) (top : Node) (place : List Name) (item : WalkItem)
    (above : List Name) (x : Name) : Prop where
  below : item.below = above ++ [x]
  dirAt : d.DirAt (place ++ above)
  path : item.path = source.below item.below
  holds : top.Holds item.below item.node

section

variable {above : List Name} {x : Name}

namespace Turn

variable (ht : Turn d source top place item above x)
include ht

theorem place_eq : place ++ item.below = place ++ above ++ [x] := by
  rw [ht.below, List.append_assoc]

theorem dropLast_eq : (place ++ item.below).dropLast = place ++ above := by
  rw [ht.place_eq, List.dropLast_concat]

theorem target_eq (target : Path) : target.join (Path.ofJoin item.below) =
    (target.join (Path.ofJoin above)).child x.text := by
  rw [ht.below, Path.join_ofJoin_concat]

theorem landsAt (h : base.Stage cwd source target place seen d)
    (hnul : ∀ y ∈ item.below, y.text.toList.contains '\x00' = false) :
    d.LandsAt cwd (target.join (Path.ofJoin above)) (place ++ above) :=
  h.lands.below above (fun y hy => hnul y (by simp [ht.below, hy])) ht.dirAt

theorem name_noNul (hnul : ∀ y ∈ item.below, y.text.toList.contains '\x00' = false) :
    x.text.toList.contains '\x00' = false :=
  hnul x (by simp [ht.below])

end Turn

/-- At the place of an item there is nothing, a directory or a file. -/
theorem kindAt_cases (h : base.Stage cwd source target place seen d)
    (hl : base.Lays cwd source target home top place) (rel : List Name) :
    d.kindAt (place ++ rel) = none ∨ d.DirAt (place ++ rel) ∨ d.FileAt (place ++ rel) := by
  rcases hk : d.kindAt (place ++ rel) with - | data | dest | l
  · exact .inl rfl
  · exact .inr (.inr ⟨data, hk⟩)
  · exact absurd ⟨dest, hk⟩ (h.not_linkAt hl.noLink (List.prefix_append _ _))
  · exact .inr (.inl ⟨l, hk⟩)

/-- **A directory that is ready** is made, unless it is there. -/
theorem copyDir_of_ready (h : base.Stage cwd source target place seen d)
    (hl : base.Lays cwd source target home top place) (hr : Ready d source place item)
    (ht : Turn d source top place item above x) (hdir : item.node.isDir = true) :
    ∃ d', d.copyItem cwd target item = (.ok false, d') ∧
      base.Stage cwd source target place (seen ++ [.ok item]) d' := by
  have hlands := ht.landsAt h hr.noNul
  have hx := ht.name_noNul hr.noNul
  have hnotFile : ∀ {e : Disk}, item.node.isDir = false →
      base.CopyAt cwd (source.below item.below) (place ++ item.below) e := fun hnot => by
    cases hdir.symm.trans hnot
  rw [copyItem_of_isDir hdir, ht.target_eq]
  rcases h.kindAt_cases hl item.below with hfree | hthere | hfile
  · have hw := ht.dropLast_eq ▸ hr.writable hfree
    rw [ht.place_eq] at hfree
    obtain ⟨d', hmade, hkinds⟩ := hlands.makeDirAll_of_free hx hfree hw
    rw [← ht.place_eq] at hkinds hfree
    have hnew := (hkinds (place ++ item.below)).trans (if_pos rfl)
    refine ⟨d', by rw [hmade]; rfl, h.next (keeps_of_put hkinds (.inl hfree)) ?_
      (fun _ => ⟨_, hnew⟩) hnotFile fun _ _ => isWritable_iff.mpr ⟨true, hnew⟩⟩
    exact fun q hq => by rw [hkinds, if_neg hq]
  · refine ⟨d, ?_, h.next (.refl d) (fun _ _ => rfl) (fun _ => hthere) hnotFile
      fun hnone _ => ?_⟩
    rotate_left
    · obtain ⟨l, hl⟩ := hthere
      cases hnone.symm.trans hl
    rw [hlands.makeDirAll_of_dirAt hx (ht.place_eq ▸ hthere)]
    rfl
  · exact absurd hfile (hr.dir hdir)

/-- **A file that is ready** is copied, or what a link leads to. -/
theorem copyFile_of_ready (h : base.Stage cwd source target place seen d)
    (hl : base.Lays cwd source target home top place) (hr : Ready d source place item)
    (ht : Turn d source top place item above x) (hdir : item.node.isDir = false) :
    ∃ d', d.copyItem cwd target item = (.ok true, d') ∧
      base.Stage cwd source target place (seen ++ [.ok item]) d' := by
  have hlands := ht.landsAt h hr.noNul
  have hx := ht.name_noNul hr.noNul
  have hbefore : d.kindAt (place ++ item.below) = none ∨ d.FileAt (place ++ item.below) :=
    (h.kindAt_cases hl item.below).imp_right fun hor => hor.resolve_left (hr.file hdir)
  have hopen : d.kindAt (place ++ item.below) = none ∧ d.isWritable (place ++ above) = true ∨
      d.FileAt (place ++ item.below) :=
    hbefore.imp_left fun hfree => ⟨hfree, ht.dropLast_eq ▸ hr.writable hfree⟩
  obtain ⟨original, data, hfound, hout⟩ := hl.exists_original ht.holds hdir (hr.path hdir)
  have hparents := hlands.makeParents_child hx
  rw [← ht.target_eq] at hparents
  obtain ⟨d', data', hcopied, hbytes, hkinds⟩ :=
    hlands.copyFile_child hx (ht.place_eq ▸ hopen) (h.locate hfound hout)
  rw [← ht.place_eq] at hbytes hkinds
  -- the place is in the tree that is overlaid, and the original is not
  have hne : place ++ item.below ≠ original := by
    rintro rfl
    exact hout (List.prefix_append _ _)
  have hkeeps : d.Keeps d' :=
    keeps_of_put hkinds (hbefore.imp_right fun hfile => ⟨hfile, data', rfl⟩)
  refine ⟨d', ?_, h.next hkeeps ?_ ?_ ?_ ?_⟩
  · rw [copyItem_of_makeParents hdir hparents, ht.path, ht.target_eq, hcopied]
  · exact fun q hq => by rw [hkinds, if_neg hq]
  · exact fun hisDir => by cases hdir.symm.trans hisDir
  · refine fun _ => ⟨data', ?_, by rw [hkinds, if_pos rfl]⟩
    exact readFile_eq_ok_iff.mpr ⟨original, data, hfound, (hbytes hne).symm⟩
  · rintro - ⟨l, hl'⟩
    cases hl'.symm.trans ((hkinds _).trans (if_pos rfl))

/-- **An item that is ready** is copied. -/
theorem copyItem_of_ready (h : base.Stage cwd source target place seen d)
    (hl : base.Lays cwd source target home top place) (hr : Ready d source place item)
    (ht : Turn d source top place item above x) :
    ∃ d', d.copyItem cwd target item = (.ok (!item.node.isDir), d') ∧
      base.Stage cwd source target place (seen ++ [.ok item]) d' := by
  cases hdir : item.node.isDir with
  | true => exact h.copyDir_of_ready hl hr ht hdir
  | false => exact h.copyFile_of_ready hl hr ht hdir

/-- A path below the destination that can be followed has no NUL in its names. -/
theorem noNul_of_followable {rel : List Name}
    (hfol : d'.Followable cwd (target.join (Path.ofJoin rel))) :
    ∀ y ∈ rel, y.text.toList.contains '\x00' = false :=
  ((Path.contains_nul_join_ofJoin _ _).mp hfol.noNul).2

/-- **A directory that was made** was ready: it did not replace a file. -/
theorem ready_of_makeDirAll (h : base.Stage cwd source target place seen d)
    (hl : base.Lays cwd source target home top place)
    (ht : Turn d source top place item above x) (hdir : item.node.isDir = true)
    (hmade : d.makeDirAll cwd (target.join (Path.ofJoin item.below)) = (.ok (), d')) :
    Ready d source place item := by
  have hnonempty : (target.join (Path.ofJoin item.below)).text.isEmpty = false := by
    rw [ht.target_eq]
    exact Path.isEmpty_text_child _ x
  obtain ⟨n, hn, -⟩ := isDir_iff.mp (isDir_of_makeDirAll hnonempty hmade)
  obtain ⟨g, hloc⟩ := stat_eq_ok_iff.mp hn
  have hnul := noNul_of_followable (locate_eq_ok_iff.mp hloc).1
  have hx := ht.name_noNul hnul
  have hlands := ht.landsAt h hnul
  refine ⟨hnul, (fun hnot => by cases hdir.symm.trans hnot), fun _ => ?_,
    (fun hnot => by cases hdir.symm.trans hnot), fun hfree => ?_⟩
  rotate_left
  · rw [ht.place_eq] at hfree
    rw [ht.target_eq] at hmade
    rw [ht.dropLast_eq]
    exact hlands.isWritable_of_makeDirAll hx hfree hmade
  rintro ⟨data, hdata⟩
  have hlink := h.not_linkAt hl.noLink (List.prefix_append place item.below)
  rw [ht.place_eq] at hdata hlink
  have hfound := hlands.resolveSteps_child hx hlink false
  obtain ⟨m, hm, -⟩ := kindAt_eq_some_iff.mp hdata
  rw [hm] at hfound
  have hnotDir : ¬ d.isDir cwd ((target.join (Path.ofJoin above)).child x.text) = true := by
    intro hisDir
    obtain ⟨l, hl'⟩ := hlands.dirAt_child hlink hisDir
    cases hdata.symm.trans hl'
  rw [ht.target_eq, makeDirAll, makeDirAllFrom_of_present hfound, if_neg hnotDir] at hmade
  cases hmade

/-- **A file that was copied** was ready: it did not replace a directory. -/
theorem ready_of_copyFile (h : base.Stage cwd source target place seen d)
    (hl : base.Lays cwd source target home top place)
    (ht : Turn d source top place item above x) (hdir : item.node.isDir = false)
    (hcopied : (d.makeParents cwd (target.join (Path.ofJoin item.below))).2.copyFile cwd item.path
      (target.join (Path.ofJoin item.below)) = .ok d') : Ready d source place item := by
  obtain ⟨original, data, place', executable, hfound, ho, -⟩ := exists_of_copyFile hcopied
  obtain ⟨-, hfol, -⟩ := exists_writable_of_openForWriting ho
  have hnul := noNul_of_followable hfol
  have hlands := ht.landsAt h hnul
  rw [ht.target_eq, hlands.makeParents_child (ht.name_noNul hnul)] at hcopied
  have hlink := h.not_linkAt hl.noLink (List.prefix_append place item.below)
  rw [ht.place_eq] at hlink
  have hbefore := hlands.before_of_copyFile hlink hcopied
  rw [← ht.place_eq] at hbefore
  refine ⟨hnul, fun _ => ?_, (fun hisDir => by cases hdir.symm.trans hisDir), fun _ => ?_,
    fun hfree => ?_⟩
  · have hno := (locate_eq_ok_iff.mp hfound).1.noNul
    rw [← ht.path]
    simpa using hno
  · rintro ⟨l, hl'⟩
    rcases hbefore with ⟨hnone, -⟩ | ⟨data', hdata'⟩
    · cases hnone.symm.trans hl'
    · cases hdata'.symm.trans hl'
  · rw [ht.dropLast_eq]
    rcases hbefore with ⟨-, hw⟩ | ⟨data', hdata'⟩
    · exact hw
    · cases hfree.symm.trans hdata'

/-- **An item that was copied** was ready. -/
theorem ready_of_copyItem (h : base.Stage cwd source target place seen d)
    (hl : base.Lays cwd source target home top place)
    (ht : Turn d source top place item above x) {b : Bool}
    (hc : d.copyItem cwd target item = (.ok b, d')) : Ready d source place item := by
  cases hdir : item.node.isDir with
  | true =>
    rw [copyItem_of_isDir hdir, Prod.mk.injEq] at hc
    rcases hmade : d.makeDirAll cwd (target.join (Path.ofJoin item.below)) with ⟨e | u, d₁⟩
    · rw [hmade] at hc
      cases hc.1
    · exact h.ready_of_makeDirAll hl ht hdir hmade
  | false =>
    obtain ⟨hisDir, -⟩ | ⟨-, hcopied⟩ := copyItem_eq_ok hc
    · cases hdir.symm.trans hisDir
    · exact h.ready_of_copyFile hl ht hdir hcopied

end

/-- The directory above an item was seen before it. -/
theorem exists_turn (h : base.Stage cwd source target place seen d)
    (hl : base.Lays cwd source target home top place) (hseen : seen ≠ [])
    {rest : Walk} (hwalk : top.walk source [] = seen ++ .ok item :: rest) :
    ∃ above x, Turn d source top place item above x := by
  have hmem : .ok item ∈ top.walk source [] := by simp [hwalk]
  obtain ⟨hpath, hholds⟩ := hl.of_mem_walk hmem
  rcases Node.walk_nested top hwalk with
    ⟨hnil, -⟩ | ⟨above, x, hbelow, dir, hdir, rfl, hisDir⟩
  · exact absurd hnil hseen
  · exact ⟨dir.below, x, hbelow, h.dirs dir hdir hisDir, hpath, hholds⟩

/-- **The rest of a walk** was copied without a fault, and counted. -/
theorem copyItems_eq_ok (h : base.Stage cwd source target place seen d)
    (hl : base.Lays cwd source target home top place) (hseen : seen ≠ []) {rest : Walk}
    (hwalk : top.walk source [] = seen ++ rest) {k m : ℕ}
    (hc : copyItems cwd target rest k d = (.ok m, d')) :
    (∀ fault, .error fault ∉ rest) ∧ m = k + rest.countP Node.isLeafItem ∧
      base.Stage cwd source target place (seen ++ rest) d' := by
  induction rest generalizing seen k d with
  | nil =>
    obtain ⟨hm, rfl⟩ := Prod.mk.inj hc
    exact ⟨by simp, by simpa using (Except.ok.inj hm).symm, by rwa [List.append_nil]⟩
  | cons i rest ih =>
    cases i with
    | error fault => simp [copyItems] at hc
    | ok item =>
      obtain ⟨above, x, hturn⟩ := h.exists_turn hl hseen hwalk
      rw [copyItems] at hc
      rcases hcopied : d.copyItem cwd target item with ⟨e | b, d₁⟩
      · rw [hcopied] at hc
        cases hc
      have hready := h.ready_of_copyItem hl hturn hcopied
      obtain ⟨d₂, hcopied', h₂⟩ := h.copyItem_of_ready hl hready hturn
      have hnext : ∀ k, copyItems cwd target rest k d₂ = (.ok m, d') →
          (∀ fault, .error fault ∉ rest) ∧ m = k + rest.countP Node.isLeafItem ∧
            base.Stage cwd source target place (seen ++ .ok item :: rest) d' := fun k hk => by
        have hall := ih h₂ (by simp) (by simp [hwalk]) hk
        rwa [List.append_assoc, List.singleton_append] at hall
      rw [hcopied'] at hc
      cases hdir : item.node.isDir with
      | true =>
        rw [hdir] at hc
        obtain ⟨hfaults, hm, hend⟩ := hnext k hc
        exact ⟨by simpa using hfaults, by simpa [Node.isLeafItem, hdir] using hm, hend⟩
      | false =>
        rw [hdir] at hc
        obtain ⟨hfaults, hm, hend⟩ := hnext (k + 1) hc
        refine ⟨by simpa using hfaults, ?_, hend⟩
        rw [hm, List.countP_cons_of_pos (by simp [Node.isLeafItem, hdir])]
        omega

/-- **The rest of a walk is copied** if it has no fault, and what it lists is ready whenever its
turn comes. -/
theorem exists_copyItems (h : base.Stage cwd source target place seen d)
    (hl : base.Lays cwd source target home top place) (hseen : seen ≠ []) {rest : Walk}
    (hwalk : top.walk source [] = seen ++ rest) (hfaults : ∀ fault, .error fault ∉ rest)
    (hready : ∀ item seen d above x, (∀ i ∈ seen, i ∈ top.walk source []) →
      base.Stage cwd source target place seen d → Turn d source top place item above x →
        Ready d source place item) (k : ℕ) :
    ∃ m d', copyItems cwd target rest k d = (.ok m, d') := by
  induction rest generalizing seen k d with
  | nil => exact ⟨k, d, rfl⟩
  | cons i rest ih =>
    cases i with
    | error fault => exact absurd (List.mem_cons_self ..) (hfaults fault)
    | ok item =>
      obtain ⟨above, x, hturn⟩ := h.exists_turn hl hseen hwalk
      have hitem := hready item seen d above x (fun i hi => by simp [hwalk, hi]) h hturn
      obtain ⟨d₂, hcopied, h₂⟩ := h.copyItem_of_ready hl hitem hturn
      have hnext := ih h₂ (by simp) (by simp [hwalk])
        fun fault hf => hfaults fault (List.mem_cons_of_mem _ hf)
      rw [copyItems, hcopied]
      cases item.node.isDir with
      | true => exact hnext k
      | false => exact hnext (k + 1)

end Stage

/-! ### The whole tree -/

section

variable (h : base.Lays cwd source target home top place)
  (hmade : base.makeDirAll cwd (target.join (Path.ofJoin [])) = (.ok (), d))
include h hmade

/-- The directory is made on the way of the destination. -/
theorem Lays.growsAt : base.GrowsAt (base.passage cwd target).met d := by
  have hgoal : (base.passage cwd (target.join (Path.ofJoin []))).goal ≠ none := by
    rw [passage_join_nil, h.goal]
    simp
  have hgrows := growsAt_of_makeDirAll hgoal
  rwa [hmade, passage_join_nil] at hgrows

/-- **The tree is kept** when the directory is made. -/
theorem Lays.lstat_made : d.lstat cwd source = .ok top := by
  have hgrows := h.growsAt hmade
  obtain ⟨m, hm, -⟩ := locate_of_grows hgrows.grows h.found
  obtain ⟨-, -, hget, -⟩ := locate_eq_ok_iff.mp h.found
  obtain ⟨-, -, hget', -⟩ := locate_eq_ok_iff.mp hm
  have hkept := hgrows.kept home (by simp [kindAt_of_get? hget]) h.outside
  rw [hget, hget', Option.some.injEq] at hkept
  exact lstat_eq_ok_iff.mpr ⟨home, hkept ▸ hm⟩

/-- **The directory itself** is the first stage. -/
theorem Lays.stage : base.Stage cwd source target place [.ok ⟨source, [], top⟩] d := by
  have hgoal : (base.passage cwd (target.join (Path.ofJoin []))).goal = some place := by
    rw [passage_join_nil, h.goal]
  have hstart : base.DirAt (origin cwd (target.join (Path.ofJoin []))) := by
    rw [origin_join (Path.isAbsolute_ofJoin _)]
    exact h.start
  have hgrows := h.growsAt hmade
  have hlands := landsAt_of_makeDirAll hstart hgoal hmade
  refine ⟨landsAt_join_nil_iff.mp hlands, hgrows.grows.keeps, fun item hitem _ => ?_,
    fun item hitem hfile => ?_, fun q _ => ?_, fun q hnone hthere => ?_⟩
  · obtain rfl : item = ⟨source, [], top⟩ := by simpa using hitem
    rw [List.append_nil]
    exact hlands.dirAt
  · obtain rfl : item = ⟨source, [], top⟩ := by simpa using hitem
    cases h.isDir.symm.trans hfile
  · exact (hgrows.kinds q).imp_right fun ⟨hnone, hmet, hnew⟩ => ⟨hnone, hmet, _, hnew⟩
  · obtain ⟨l, hl⟩ := hthere
    exact hgrows.grows.isWritable (.inr ⟨hnone, by simp [hl]⟩)

end

/-- **When all was copied** the tree is laid over the other. -/
theorem Stage.laidOver (h : base.Stage cwd source target place (top.walk source []) d)
    (hl : base.Lays cwd source target home top place)
    (hholds : ∀ rel n, top.get? rel = some n → top.Holds rel n) :
    base.LaidOver cwd source target home top place d := by
  obtain ⟨-, -, hget, -⟩ := locate_eq_ok_iff.mp hl.found
  have hmem : ∀ rel n, top.get? rel = some n →
      .ok ⟨source.below rel, rel, n⟩ ∈ top.walk source [] := fun rel n hn =>
    (Node.mem_walk_iff top (Node.distinct_of_get? base.distinct hget)).mpr
      ⟨rel, n, hholds rel n hn, Node.ok_mem_itemsAt.mpr (by rw [List.nil_append])⟩
  have hout : ∀ q, (∀ rel, q = place ++ rel → top.get? rel = none) →
      ∀ item, .ok item ∈ top.walk source [] → q ≠ place ++ item.below := by
    rintro q hq item hitem rfl
    have hnone := hq item.below rfl
    rw [(hl.of_mem_walk hitem).2.get?] at hnone
    cases hnone
  exact {
    lands := h.lands
    dirs := fun rel n hn hdir => h.dirs ⟨source.below rel, rel, n⟩ (hmem rel n hn) hdir
    files := fun rel n hn hdir => h.files ⟨source.below rel, rel, n⟩ (hmem rel n hn) hdir
    others := fun q hq => h.others q (hout q hq)
    keeps := h.keeps
    original := fun rel => by
      rcases h.others (home ++ rel) fun item _ heq =>
        hl.not_prefix rel (heq ▸ List.prefix_append _ _) with hsame | ⟨hnone, hmet, -⟩
      · exact hsame
      · exact absurd (List.prefix_append home rel) (hl.outside _ hmet hnone) }

/-- What can be read has no NUL in its path. -/
theorem not_mem_of_isOk {p : Path} {n : Node}
    (h : if n.isDir then (base.readDir cwd p).isOk = true
      else (base.readFile cwd p).isOk = true) : '\x00' ∉ p.text.toList := by
  have hno : ∀ {place m}, base.locate cwd p true = .ok (place, m) → '\x00' ∉ p.text.toList :=
    fun hloc => by simpa using (locate_eq_ok_iff.mp hloc).1.noNul
  split at h
  · cases hread : base.readDir cwd p with
    | error e => simp [hread, Except.isOk, Except.toBool] at h
    | ok es =>
      obtain ⟨w, hstat⟩ := readDir_eq_ok_iff.mp hread
      obtain ⟨place, hloc⟩ := stat_eq_ok_iff.mp hstat
      exact hno hloc
  · cases hread : base.readFile cwd p with
    | error e => simp [hread, Except.isOk, Except.toBool] at h
    | ok bytes =>
      obtain ⟨place, data, hloc, -⟩ := readFile_eq_ok_iff.mp hread
      exact hno hloc

namespace Fits

variable (hfits : base.Fits cwd source target top place)
include hfits

/-- Every directory of the tree can be listed. -/
theorem not_holds (hl : base.Lays cwd source target home top place) (rel : List Name)
    (w : Bool) (es : List (Name × Node)) : ¬ top.Holds rel (.dir ⟨false, w⟩ es) := by
  intro hholds
  have hread := hfits.readable rel _ hholds.get?
  have hloc := locate_below hl.locate hholds rfl (not_mem_of_isOk hread)
  have hstat := stat_eq_ok_iff.mpr ⟨_, hloc⟩
  rw [Node.isDir, if_pos rfl, readDir, hstat] at hread
  cases hread

/-- **Nothing stands against an item** whenever its turn comes. -/
theorem ready (hl : base.Lays cwd source target home top place)
    (h : base.Stage cwd source target place seen d) (hseen : ∀ i ∈ seen, i ∈ top.walk source [])
    {above : List Name} {x : Name} (hturn : Stage.Turn d source top place item above x) :
    Stage.Ready d source place item := by
  have hholds := hturn.holds
  have hnul := not_mem_of_isOk (hfits.readable _ _ hholds.get?)
  have hsame : ∀ other, .ok other ∈ seen → other.below = item.below → other.node = item.node := by
    intro other hother hbelow
    have hget := (hl.of_mem_walk (hseen _ hother)).2.get?
    rw [hbelow, hholds.get?] at hget
    exact (Option.some.inj hget).symm
  -- its place holds what it held in the beginning, or what was copied or made there
  have hplace : (∃ other, .ok other ∈ seen ∧ other.below = item.below) ∨
      (d.kindAt (place ++ item.below) = base.kindAt (place ++ item.below) ∨
        place ++ item.below ∈ (base.passage cwd target).met ∧
          d.DirAt (place ++ item.below)) := by
    by_cases hin : ∃ other, .ok other ∈ seen ∧ other.below = item.below
    · exact .inl hin
    · refine .inr ((h.others _ fun other hother heq => hin ⟨other, hother, ?_⟩).imp_right And.right)
      simpa using heq.symm
  refine ⟨fun x hx => ?_, fun _ => hnul, fun hdir => ?_, fun hdir => ?_, fun hfree => ?_⟩
  · rw [List.contains_eq_mem, decide_eq_false_iff_not]
    exact fun hmem => hnul ((Path.mem_toList_below (by decide)).mpr (.inr ⟨x, hx, hmem⟩))
  · rintro ⟨data, hdata⟩
    rcases hplace with ⟨other, hother, hbelow⟩ | hkept | ⟨-, l, hl'⟩
    · obtain ⟨l, hl'⟩ := h.dirs other hother (hsame other hother hbelow ▸ hdir)
      rw [hbelow, hdata] at hl'
      cases hl'
    · obtain ⟨m, hm, hk⟩ := kindAt_eq_some_iff.mp (hkept.symm.trans hdata)
      obtain rfl := Node.kind_eq_file_iff.mp hk
      cases hdir.symm.trans (hfits.agree _ _ _ hholds.get? hm)
    · cases hdata.symm.trans hl'
  · rintro ⟨l, hl'⟩
    rcases hplace with ⟨other, hother, hbelow⟩ | hkept | ⟨hmet, -⟩
    · obtain ⟨data, -, hdata⟩ := h.files other hother (hsame other hother hbelow ▸ hdir)
      rw [hbelow, hl'] at hdata
      cases hdata
    · obtain ⟨m, hm, hk⟩ := kindAt_eq_some_iff.mp (hkept.symm.trans hl')
      have hmdir : m.isDir = true := Node.isDir_iff.mpr ⟨l, hk⟩
      cases hdir.symm.trans ((hfits.agree _ _ _ hholds.get? hm).trans hmdir)
    · cases hdir.symm.trans (hfits.onWay _ _ hholds.get? hmet)
  · -- what is missing now was missing in the beginning
    rw [hturn.dropLast_eq]
    refine h.isWritable hturn.dirAt fun hthere => hfits.writable _ x hthere ?_ (.inr ?_)
    · by_contra hne
      exact h.keeps.kindAt_ne_none hne (hturn.place_eq ▸ hfree)
    · exact ⟨item.below, hturn.place_eq.symm, by simp [hholds.get?]⟩

/-- **The directory itself** can be made. -/
theorem exists_makeDirAll (hl : base.Lays cwd source target home top place) :
    ∃ d, base.makeDirAll cwd (target.join (Path.ofJoin [])) = (.ok (), d) := by
  have hmakeable : base.Makeable cwd target := by
    refine ⟨by simpa using hfits.noNul, hl.start, ?_, hfits.leadsOn,
      fun dir x hmem hdir hfree => hfits.writable dir x hdir hfree (.inl hmem)⟩
    rw [hl.goal]
    simp
  refine hmakeable.join_nil.makeDirAll fun hdot => ?_
  have hends : target.EndsInDot := by
    rwa [Path.EndsInDot, Path.steps_join_nil] at hdot
  obtain ⟨g, hg⟩ := landsAt_of_isDir (hfits.dot hends)
  refine (landsAt_join_nil_iff.mpr hg).isDir ?_
  -- the empty path has no steps
  rw [Bool.eq_false_iff, ne_eq, String.isEmpty_iff]
  intro hempty
  obtain ⟨before, x, after, hsteps, -⟩ := hdot
  rw [Path.steps_eq, hempty] at hsteps
  simp [Path.stepsIn, Text.splitChars] at hsteps

end Fits

/-- **A tree that was copied** is laid over the other. -/
theorem Lays.of_copyTree (hl : base.Lays cwd source target home top place) {n : ℕ}
    (hc : base.copyTree cwd source target = (.ok n, d)) :
    n = top.leaves ∧ base.LaidOver cwd source target home top place d := by
  obtain ⟨-, -, hget, -⟩ := locate_eq_ok_iff.mp hl.found
  obtain ⟨w, es, hes⟩ := lstat_of_copyTree hc
  obtain rfl : top = .dir ⟨true, w⟩ es :=
    Except.ok.inj ((lstat_eq_ok_iff.mpr ⟨home, hl.found⟩).symm.trans hes)
  rcases hmade : base.makeDirAll cwd (target.join (Path.ofJoin [])) with ⟨e | u, d₁⟩
  · rw [copyTree_of_lstat hes, hmade] at hc
    cases hc
  rw [copyTree_of_makeDirAll hes hmade (hl.lstat_made hmade)] at hc
  obtain ⟨hfaults, hn, hstage⟩ :=
    (hl.stage hmade).copyItems_eq_ok hl (List.cons_ne_nil _ []) (Node.walk_dir source w es) hc
  have hall : ∀ fault, .error fault ∉ (Node.dir ⟨true, w⟩ es).walk source [] := by
    simpa [Node.walk_dir] using hfaults
  rw [← Node.walk_dir] at hstage
  refine ⟨?_, hstage.laidOver hl fun rel m hm => Node.holds_of_get?
    (Node.not_holds_of_walk (Node.distinct_of_get? base.distinct hget) hall) hm⟩
  rw [hn, ← Node.countP_walk _ hall, Node.walk_dir]
  simp [Node.isLeafItem, Node.isDir]

/-- **A tree is copied** whenever nothing stands against it. -/
theorem Fits.exists_copyTree (hfits : base.Fits cwd source target top place)
    (hl : base.Lays cwd source target home top place) :
    ∃ n d, base.copyTree cwd source target = (.ok n, d) := by
  obtain ⟨-, -, hget, -⟩ := locate_eq_ok_iff.mp hl.found
  have hes : base.lstat cwd source = .ok top := lstat_eq_ok_iff.mpr ⟨home, hl.found⟩
  obtain ⟨⟨l, w⟩, es, rfl⟩ := Node.exists_eq_dir hl.isDir
  obtain rfl : l = true := by
    by_contra hnot
    rw [Bool.not_eq_true] at hnot
    exact hfits.not_holds hl [] w es (hnot ▸ .self _)
  -- a fault would come from a directory that cannot be listed
  have hfaults : ∀ fault, .error fault ∉ (Node.dir ⟨true, w⟩ es).walk source [] := by
    intro fault hf
    obtain ⟨rel, n, hn, hi⟩ :=
      (Node.mem_walk_iff _ (Node.distinct_of_get? base.distinct hget)).mp hf
    rcases n with data | dest | ⟨⟨- | -, w'⟩, es'⟩
    · simp [Node.itemsAt] at hi
    · simp [Node.itemsAt] at hi
    · exact hfits.not_holds hl rel w' es' hn
    · simp [Node.itemsAt] at hi
  obtain ⟨d₁, hmade⟩ := hfits.exists_makeDirAll hl
  rw [copyTree_of_makeDirAll hes hmade (hl.lstat_made hmade)]
  refine (hl.stage hmade).exists_copyItems hl (List.cons_ne_nil _ []) (Node.walk_dir source w es)
    (fun fault hf => hfaults fault ?_)
    (fun item seen d above x hseen h hturn => hfits.ready hl h hseen hturn) 0
  rw [Node.walk_dir]
  exact List.mem_append_right _ hf

/-- **A tree is laid over another** by copying it.  If a tree and the destination are apart, there
are no links at the destination, and those of the tree lead to files elsewhere, then copying it
gives the number of its entries that are not directories; every directory of it is at its place
below the destination, and a copy of every file, and nothing else has changed but for directories
that were made on the way to the destination.  The tree is copied whenever nothing stands against
it. -/
theorem copyTree_spec (hl : base.Lays cwd source target home top place) :
    (∀ n d, base.copyTree cwd source target = (.ok n, d) →
      n = top.leaves ∧ base.LaidOver cwd source target home top place d) ∧
    (base.Fits cwd source target top place →
      ∃ n d, base.copyTree cwd source target = (.ok n, d)) :=
  ⟨fun _ _ hc => hl.of_copyTree hc, fun hfits => hfits.exists_copyTree hl⟩

end

/-! ### Checking the entries of a tree -/

/-- Whether a path leads to a file that does not stand in a tree. -/
def leadsElsewhere (d : Disk) (cwd : List Name) (p : Path) (place : List Name) : Bool :=
  match d.locate cwd p true with
  | .ok (original, .file _) => !decide (place <+: original)
  | _ => false

theorem leadsElsewhere_iff {d : Disk} {cwd place : List Name} {p : Path} :
    d.leadsElsewhere cwd p place = true ↔
      ∃ original data, d.locate cwd p true = .ok (original, .file data) ∧
        ¬ place <+: original := by
  rw [leadsElsewhere]
  split
  · next original data hfound => simp [hfound]
  · next hother =>
    simp only [Bool.false_eq_true, false_iff]
    rintro ⟨original, data, hfound, -⟩
    exact hother original data hfound

/-- Whether an entry of a tree can be copied to its place. -/
def suits (d : Disk) (cwd : List Name) (source target : Path) (place rel : List Name) (n : Node) :
    Bool :=
  (if n.isDir then (d.readDir cwd (source.below rel)).isOk
    else (d.readFile cwd (source.below rel)).isOk) &&
  (!n.isLink || d.leadsElsewhere cwd (source.below rel) place) &&
  ((d.get? (place ++ rel)).all fun m => n.isDir == m.isDir) &&
  (decide (place ++ rel ∉ (d.passage cwd target).met) || n.isDir)

theorem suits_iff {d : Disk} {cwd place rel : List Name} {source target : Path} {n : Node} :
    d.suits cwd source target place rel n = true ↔
      (if n.isDir then (d.readDir cwd (source.below rel)).isOk = true
        else (d.readFile cwd (source.below rel)).isOk = true) ∧
      (n.isLink = true → ∃ original data,
        d.locate cwd (source.below rel) true = .ok (original, .file data) ∧
          ¬ place <+: original) ∧
      (∀ m, d.get? (place ++ rel) = some m → n.isDir = m.isDir) ∧
      (place ++ rel ∈ (d.passage cwd target).met → n.isDir = true) := by
  rw [suits, Bool.and_eq_true, Bool.and_eq_true, Bool.and_eq_true, Bool.or_eq_true,
    leadsElsewhere_iff, Option.all_eq_true]
  simp only [beq_iff_eq, Bool.or_eq_true, decide_eq_true_eq, Bool.not_eq_true', and_assoc,
    ← Bool.not_eq_true, ← imp_iff_not_or]
  split <;> rfl

/-- **A walk finds out** whether all entries of a tree can be copied. -/
theorem suits_of_all_walk {d : Disk} {cwd home place rel : List Name} {source target : Path}
    {top n : Node} (htop : d.get? home = some top)
    (h : (top.walk source []).all (Node.passes (d.suits cwd source target place)) = true)
    (hn : top.get? rel = some n) : d.suits cwd source target place rel n = true :=
  Node.forall_of_all_walk (Node.distinct_of_get? d.distinct htop) h hn

/-- A walk of a whole disk finds out whether all its directories are writable. -/
theorem isWritable_of_all_walk {d : Disk} {place : List Name} {p : Path}
    (h : (d.root.walk p []).all (Node.passes fun q n => !n.isDir || d.isWritable q) = true)
    (hdir : d.DirAt place) : d.isWritable place = true := by
  obtain ⟨n, hn, hisDir⟩ := dirAt_iff.mp hdir
  simpa [hisDir] using Node.forall_of_all_walk d.distinct h hn

/-! ### A small tree -/

/-- A tree with a link to a file elsewhere, and another that has something else besides. -/
def overlaidDisk : Disk :=
  (Disk.empty ⟨10⟩).plant []
    [⟨⟨"src/a"⟩, .file "new".toUTF8 false (some ⟨1⟩)⟩,
      ⟨⟨"src/sub/b"⟩, .file "b".toUTF8 false (some ⟨1⟩)⟩,
      ⟨⟨"src/l"⟩, .link ⟨"../out"⟩⟩,
      ⟨⟨"out"⟩, .file "out".toUTF8 false (some ⟨1⟩)⟩,
      ⟨⟨"dst/a"⟩, .file "old".toUTF8 false (some ⟨1⟩)⟩,
      ⟨⟨"dst/keep"⟩, .file "keep".toUTF8 false (some ⟨1⟩)⟩]

def sourcePlace : List Name := [⟨"src", by decide⟩]

def targetPlace : List Name := [⟨"dst", by decide⟩]

/-- The directory on the way to the destination is missing. -/
def targetPath : Path := ⟨"/made/../dst"⟩

theorem passage_overlaidDisk : overlaidDisk.passage [] targetPath =
    ⟨[[⟨"made", by decide⟩], targetPlace], [], some targetPlace⟩ := by
  decide +kernel

/-- The tree can be laid over the other, and nothing stands against it. -/
theorem exists_fits_overlaidDisk : ∃ top,
    overlaidDisk.Lays [] ⟨"/src"⟩ targetPath sourcePlace top targetPlace ∧
      overlaidDisk.Fits [] ⟨"/src"⟩ targetPath top targetPlace ∧ top.leaves = 3 := by
  have hsome : ((overlaidDisk.get? sourcePlace).any fun top => top.isDir && top.leaves == 3 &&
      (top.walk ⟨"/src"⟩ []).all
        (Node.passes (overlaidDisk.suits [] ⟨"/src"⟩ targetPath targetPlace))) = true := by
    decide +kernel
  obtain ⟨top, htop, hall⟩ := (Option.any_eq_true _ _).mp hsome
  simp only [Bool.and_eq_true, beq_iff_eq] at hall
  obtain ⟨⟨hdir, hleaves⟩, hwalk⟩ := hall
  have hsuits : ∀ rel n, top.get? rel = some n → _ := fun rel n hn =>
    suits_iff.mp (suits_of_all_walk htop hwalk hn)
  have hfound : overlaidDisk.locate [] ⟨"/src"⟩ false = .ok (sourcePlace, top) :=
    locate_eq_ok_iff.mpr
      ⟨⟨by decide, by decide, dirAt_nil _⟩, by decide +kernel, htop, by decide +kernel⟩
  have hgrounds : overlaidDisk.Grounds [] ⟨"/dst"⟩ targetPlace :=
    hasGrounds_iff.mp (by decide +kernel)
  have htarget : overlaidDisk.DirAt targetPlace := by
    obtain ⟨n, hn, hisDir⟩ := hgrounds.leads
    exact dirAt_iff.mpr ⟨n, (locate_eq_ok_iff.mp hn).2.2.1, hisDir⟩
  have hlays : overlaidDisk.Lays [] ⟨"/src"⟩ targetPath sourcePlace top targetPlace := {
    found := hfound
    isDir := hdir
    start := dirAt_nil _
    goal := by rw [passage_overlaidDisk]
    apart := by decide
    noLink := by
      rintro q hq ⟨dest, hlink⟩
      exact hgrounds.noLink q dest hq hlink
    outside := by
      rw [passage_overlaidDisk]
      decide +kernel
    links := fun rel n hn => (hsuits rel n hn).2.1 }
  refine ⟨top, hlays, ?_, hleaves⟩
  exact {
    readable := fun rel n hn => (hsuits rel n hn).1
    noNul := by decide
    leadsOn := by
      rw [passage_overlaidDisk]
      intro q hq hthere
      rcases List.mem_pair.mp hq with rfl | rfl
      · exact absurd (by decide +kernel) hthere
      · exact .inl htarget
    dot := fun hdot => absurd hdot.getLast?_steps (by decide +kernel)
    agree := fun rel n m hn => (hsuits rel n hn).2.2.1 m
    onWay := fun rel n hn => (hsuits rel n hn).2.2.2
    writable := fun dir x hdir _ _ =>
      isWritable_of_all_walk (p := ⟨"/"⟩) (by decide +kernel) hdir }

/-- Copying the tree over the other gives all three files. -/
theorem copyTree_spec_small : ∃ top d',
    overlaidDisk.Lays [] ⟨"/src"⟩ targetPath sourcePlace top targetPlace ∧
      overlaidDisk.Fits [] ⟨"/src"⟩ targetPath top targetPlace ∧
      overlaidDisk.copyTree [] ⟨"/src"⟩ targetPath = (.ok 3, d') ∧
      overlaidDisk.LaidOver [] ⟨"/src"⟩ targetPath sourcePlace top targetPlace d' := by
  obtain ⟨top, hlays, hfits, hleaves⟩ := exists_fits_overlaidDisk
  obtain ⟨n, d', hcopied⟩ := (copyTree_spec hlays).2 hfits
  obtain ⟨hn, hover⟩ := (copyTree_spec hlays).1 n d' hcopied
  exact ⟨top, d', hlays, hfits, by rw [hcopied, hn, hleaves], hover⟩

/-- A tree with a link to the place that it is copied to. -/
def mirroredDisk : Disk :=
  (Disk.empty ⟨10⟩).plant []
    [⟨⟨"src/a"⟩, .link ⟨"../dst/a"⟩⟩,
      ⟨⟨"dst/a"⟩, .file "old".toUTF8 false (some ⟨1⟩)⟩]

/-- A tree with a single file. -/
def singleDisk : Disk :=
  (Disk.empty ⟨10⟩).plant []
    [⟨⟨"src/sub"⟩, .file "new".toUTF8 false (some ⟨1⟩)⟩]

/-- **Where a tree is not laid over another.**  A link to the file that it replaces empties it.  What
was missing in the tree on the way to the destination is copied.  Behind a missing name, no
directory can be made under a dot.  And where a directory was made on the way to the destination, no
file can come to stand. -/
theorem copyTree_misses :
    let mirrored := mirroredDisk.copyTree [] ⟨"/src"⟩ ⟨"/dst"⟩
    let winding := singleDisk.copyTree [] ⟨"/src"⟩ ⟨"/src/gone/../../dst"⟩
    mirroredDisk.readFile [] ⟨"/src/a"⟩ = .ok "old".toUTF8 ∧ mirrored.1 = .ok 1 ∧
      mirrored.2.readFile [] ⟨"/dst/a"⟩ = .ok ByteArray.empty ∧
      singleDisk.pathExists [] ⟨"/src/gone"⟩ = false ∧ winding.1 = .ok 1 ∧
      winding.2.isDir [] ⟨"/dst/gone"⟩ = true ∧
      (singleDisk.copyTree [] ⟨"/src"⟩ ⟨"/dst/."⟩).1 = .error (.os .notFound) ∧
      (singleDisk.copyTree [] ⟨"/src"⟩ ⟨"/dst/sub/.."⟩).1 = .error (.os .isDirectory) := by
  decide +kernel

end SuiteGate.Disk
