import SuiteGate.Proofs.Disk.Changes
/-!
# What is left after a removal

Where something was removed, its path leads nowhere (`Erased.lstat_ne_ok`): a removal makes nothing
new, so what the path could still lead to would stand where it was removed.  A tree that is named by
an entry of a directory is removed unless it is kept (`Disk.Kept`), by the directory that it is in
or by one in it that cannot be emptied (`removeTree_child_spec`).  After an attempt to remove a file at
most a directory is left in its place, or the directory that it is in is not writable
(`isDir_of_locate_withoutFile`).
-/

namespace SuiteGate

/-- A walk of a directory that cannot be emptied comes by one that keeps its entries. -/
theorem Node.exists_holds_keeps {n : Node} (hn : n.Distinct) (h : ¬ n.strip.1 = true) :
    ∃ rel m, n.Holds rel m ∧ m.Keeps := by
  rw [strip_fst_iff n hn] at h
  push Not at h
  obtain ⟨rel, m, hm, hkeeps⟩ := h
  by_cases hlisted : ∀ r w es, ¬ n.Holds r (.dir ⟨false, w⟩ es)
  · exact ⟨rel, m, holds_of_get? hlisted hm, hkeeps⟩
  · push Not at hlisted
    obtain ⟨r, w, es, hr⟩ := hlisted
    exact ⟨r, _, hr, .inl rfl⟩

namespace Disk

section

variable {d d' : Disk} {cwd : List Name} {p : Path}

/-- **A directory that keeps its entries** did so when there was more on the disk. -/
theorem Reaches.keeps_of_within {rel : List Name} {n : Node} (h : d'.Within d)
    (hr : d'.Reaches cwd p rel n) (hkeeps : n.Keeps) :
    ∃ m, d.Reaches cwd p rel m ∧ m.Keeps := by
  obtain ⟨m, hm, hk⟩ := hr.of_within h
  refine ⟨m, hm, ?_⟩
  obtain ⟨place, top, hl, -, hget⟩ := hr.exists_place
  obtain ⟨place', top', hl', -, hget'⟩ := hm.exists_place
  obtain ⟨top'', hl'', -⟩ := locate_of_within h hl
  obtain ⟨rfl, rfl⟩ := Prod.mk.inj (Except.ok.inj (hl'.symm.trans hl''))
  cases n with
  | file data => cases hkeeps
  | link target => cases hkeeps
  | dir access es =>
    obtain ⟨es', rfl⟩ := Node.kind_eq_dir_iff.mp hk
    refine hkeeps.imp_right fun ⟨hwritable, hentries⟩ => ⟨hwritable, ?_⟩
    -- an entry that is there now was there before
    rintro rfl
    obtain ⟨⟨x, c⟩, rest, rfl⟩ := List.exists_cons_of_ne_nil hentries
    have hnow : d'.kindAt (place' ++ rel ++ [x]) = some c.kind := by
      refine kindAt_of_get? ?_
      rw [get?_concat hget, List.lookup_cons_self]
    have hbefore := h _ (ne_of_eq_of_ne hnow (by simp))
    rw [hnow, kindAt, get?_concat hget'] at hbefore
    cases hbefore

/-- What is found after things were removed was found before. -/
theorem lstat_of_within (h : d'.Within d) {n : Node} (hs : d'.lstat cwd p = .ok n) :
    ∃ m, d.lstat cwd p = .ok m ∧ m.kind = n.kind := by
  obtain ⟨place, hl⟩ := lstat_eq_ok_iff.mp hs
  obtain ⟨m, hm, hk⟩ := locate_of_within h hl
  exact ⟨m, lstat_eq_ok_iff.mpr ⟨place, hm⟩, hk⟩

/-- **The path of what was removed** leads nowhere. -/
theorem Erased.lstat_ne_ok (h : d.Erased cwd p d') (n : Node) : d'.lstat cwd p ≠ .ok n := by
  intro hs
  obtain ⟨place, hl⟩ := lstat_eq_ok_iff.mp hs
  obtain ⟨m, hm, -⟩ := locate_of_within h.within hl
  obtain ⟨erased, k, hk, hne, rfl⟩ := h
  -- the path can only lead to the place that was erased
  obtain ⟨rfl, rfl⟩ := Prod.mk.inj (Except.ok.inj (hm.symm.trans hk))
  obtain ⟨-, -, hget, -⟩ := locate_eq_ok_iff.mp hl
  have hnone : (d.erase place).tick.kindAt place = none := by
    rw [kindAt_tick, kindAt_erase hne, if_pos List.prefix_rfl]
  rw [kindAt_of_get? hget] at hnone
  cases hnone

end

/-! ### A tree in a directory -/

section

variable {d : Disk} {cwd : List Name} {p : Path} {x : Name}

/-- The name of an entry leads, without what is behind it, to what its path leads to. -/
theorem resolveSteps_child_of_locate {place : List Name} {n : Node}
    (h : d.locate cwd (p.child x.text) false = .ok (place, n)) :
    d.resolveSteps cwd (p.child x.text) (p.child x.text).steps false = .ok (.present place n) := by
  obtain ⟨hfol, hgoal, hn, hmet⟩ := locate_eq_ok_iff.mp h
  have hf := resolveSteps_eq_ok_iff.mpr ⟨hfol, followLinks_eq_present_iff.mpr ⟨hgoal, hn, hmet⟩⟩
  rwa [stepsOf, Path.hasTrailingSlash_child, if_neg Bool.false_ne_true, List.append_nil] at hf

/-- Nothing but the directory that it is in keeps an empty directory from being removed. -/
theorem obstacleToRemoval_child_of_locate {place : List Name} {n : Node}
    (h : d.locate cwd (p.child x.text) false = .ok (place, n)) (hdir : n.isDir = true) :
    d.obstacleToRemoval cwd (p.child x.text) =
      if d.isWritable place.dropLast then none else some .permissionDenied := by
  have hlast : (p.child x.text).steps.getLast? = some (.down x) := by
    rw [Path.steps_child, List.getLast?_concat]
  have hlink : n.isLink = false := by
    obtain ⟨access, es, rfl⟩ := Node.exists_eq_dir hdir
    rfl
  rw [obstacleToRemoval, hlast]
  simp only [isRemovable, namesLink, resolveSteps_child_of_locate h, hlink]
  cases d.isWritable place.dropLast <;> rfl

/-- **Removing a tree in a directory:** it is gone if nothing keeps it, and else emptied as far as
that can be done. -/
theorem removeTree_child_of_locate {place : List Name} {n : Node}
    (h : d.locate cwd (p.child x.text) false = .ok (place, n)) (hn : n.isFile = false) :
    d.removeTree cwd (p.child x.text) =
      if n.strip.1 && d.isWritable place.dropLast then (.ok (), (d.erase place).tick)
      else (.error (.os .permissionDenied), if n.isDir then (d.clear place).tick else d) := by
  rw [removeTree, removeDirAll, h]
  cases n with
  | file data => cases hn
  | link target =>
    have hstrip : (Node.link target).strip.1 = true := rfl
    simp only [hstrip, Bool.true_and]
    cases d.isWritable place.dropLast <;> rfl
  | dir access es =>
    simp only [obstacleToRemoval_child_of_locate h rfl]
    cases (Node.dir access es).strip.1 <;> cases d.isWritable place.dropLast <;> rfl

/-- Nothing happens where a path leads nowhere. -/
theorem removeTree_of_error {e : IoError} (h : d.locate cwd p false = .error e) :
    d.removeTree cwd p = (if e.isNotFound then .ok () else .error e, d) := by
  rw [removeTree, removeDirAll, h]

/-- What stands in the way of a removal: the path cannot be followed, and not because something is
missing on it. -/
def Blocks (d : Disk) (cwd : List Name) (p : Path) (e : IoError) : Prop :=
  d.lstat cwd p = .error e ∧ e.isNotFound = false

/-- What a path leads to is kept: it is in a directory that is not writable, or a directory in it
keeps its entries. -/
def Kept (d : Disk) (cwd : List Name) (p : Path) : Prop :=
  ∃ place n, d.locate cwd p false = .ok (place, n) ∧
    (d.isWritable place.dropLast = false ∨ ∃ rel m, n.get? rel = some m ∧ m.Keeps)

theorem not_blocks_of_lstat {n : Node} {e : IoError} (h : d.lstat cwd p = .ok n) :
    ¬ d.Blocks cwd p e := by
  rintro ⟨herror, -⟩
  cases h.symm.trans herror

/-- A tree goes exactly if nothing in it is kept. -/
theorem kept_iff_of_locate {place : List Name} {n : Node}
    (h : d.locate cwd p false = .ok (place, n)) :
    d.Kept cwd p ↔ (n.strip.1 && d.isWritable place.dropLast) = false := by
  obtain ⟨-, -, hget, -⟩ := locate_eq_ok_iff.mp h
  have hstrip := Node.strip_fst_iff n (Node.distinct_of_get? d.distinct hget)
  rw [Bool.and_eq_false_iff, ← Bool.not_eq_true, hstrip]
  constructor
  · rintro ⟨place', n', h', hkept⟩
    obtain ⟨rfl, rfl⟩ := Prod.mk.inj (Except.ok.inj (h.symm.trans h'))
    rcases hkept with hwritable | ⟨rel, m, hm, hkeeps⟩
    · exact .inr hwritable
    · exact .inl fun hgoes => hgoes rel m hm hkeeps
  · intro hkept
    refine ⟨place, n, h, ?_⟩
    rcases hkept with hkeeps | hwritable
    · push Not at hkeeps
      exact .inr hkeeps
    · exact .inl hwritable

section

variable (hfile : ∀ n, d.lstat cwd (p.child x.text) = .ok n → n.isFile = false)

include hfile

/-- **A tree that is kept** is not removed. -/
theorem removeTree_child_of_kept (h : d.Kept cwd (p.child x.text)) :
    (d.removeTree cwd (p.child x.text)).1 = .error (.os .permissionDenied) := by
  obtain ⟨place, n, hl, -⟩ := id h
  have hok : d.lstat cwd (p.child x.text) = .ok n := lstat_eq_ok_iff.mpr ⟨place, hl⟩
  rw [removeTree_child_of_locate hl (hfile n hok), (kept_iff_of_locate hl).mp h]
  rfl

/-- **After a tree in a directory was removed** there is nothing in its place, and the removal only
fails if something stands in its way. -/
theorem removeTree_child_spec (h : ¬ d.Kept cwd (p.child x.text)) :
    (∀ n, (d.removeTree cwd (p.child x.text)).2.lstat cwd (p.child x.text) ≠ .ok n) ∧
      ∀ e, (d.removeTree cwd (p.child x.text)).1 = .error e ↔ d.Blocks cwd (p.child x.text) e := by
  rcases hl : d.locate cwd (p.child x.text) false with e | ⟨place, n⟩
  · have herror : d.lstat cwd (p.child x.text) = .error e := by rw [lstat, hl]; rfl
    rw [removeTree_of_error hl]
    refine ⟨fun n => by simp [herror], fun e' => ?_⟩
    simp only [Blocks, herror, Except.error.injEq]
    by_cases hmissing : e.isNotFound = true
    · rw [if_pos hmissing]
      refine ⟨fun h => (by cases h), ?_⟩
      rintro ⟨rfl, hno⟩
      cases hmissing.symm.trans hno
    · rw [if_neg hmissing, Except.error.injEq]
      refine ⟨?_, And.left⟩
      rintro rfl
      exact ⟨rfl, Bool.eq_false_iff.mpr hmissing⟩
  · -- what is found is no file and is not kept, so it is erased
    have hok : d.lstat cwd (p.child x.text) = .ok n := lstat_eq_ok_iff.mpr ⟨place, hl⟩
    have hspec := (removeTree_spec d cwd (p.child x.text)).1
    rw [kept_iff_of_locate hl, Bool.not_eq_false] at h
    rw [removeTree_child_of_locate hl (hfile n hok), if_pos h] at hspec ⊢
    obtain ⟨⟨e, he⟩, -⟩ | herased := hspec rfl
    · cases hl.symm.trans he
    · refine ⟨herased.lstat_ne_ok, fun e => ⟨fun herror => ?_, fun hblocks => ?_⟩⟩
      · cases herror
      · exact absurd hblocks (not_blocks_of_lstat hok)

end

end

/-! ### A file -/

/-- The disk after an attempt to remove a file. -/
def withoutFile (d : Disk) (cwd : List Name) (p : Path) : Disk :=
  match d.removeFile cwd p with
  | .ok d' => d'
  | .error _ => d

section

variable {d : Disk} {cwd : List Name} {p : Path}

theorem withoutFile_within (d : Disk) (cwd : List Name) (p : Path) :
    (d.withoutFile cwd p).Within d := by
  rw [withoutFile]
  cases hr : d.removeFile cwd p with
  | error e => exact .refl d
  | ok d' => exact (removeFile_spec hr).within

/-- **After an attempt to remove a file** at most a directory stands in its place, or a file in a
directory that is not writable. -/
theorem isDir_of_locate_withoutFile (hp : p.hasTrailingSlash = false) {place : List Name} {n : Node}
    (hn : (d.withoutFile cwd p).locate cwd p false = .ok (place, n)) :
    n.isDir = true ∨ (d.withoutFile cwd p).isWritable place.dropLast = false := by
  rw [withoutFile] at hn ⊢
  cases hr : d.removeFile cwd p with
  | ok d' =>
    rw [hr] at hn
    exact absurd (lstat_eq_ok_iff.mpr ⟨place, hn⟩) ((removeFile_spec hr).lstat_ne_ok n)
  | error e =>
    rw [hr] at hn
    cases n with
    | dir l es => exact .inl rfl
    | file data | link target =>
      -- it could have been removed from a writable directory
      refine .inr (Bool.eq_false_iff.mpr fun hw => ?_)
      rw [removeFile, hn] at hr
      simp [hp, hw, bind, Except.bind, pure, Except.pure] at hr

/-- What at most stands after an attempt to remove a file does so when more was removed. -/
theorem isDir_of_locate_within {d' : Disk} (h : d'.Within d)
    (hd : ∀ place n, d.locate cwd p false = .ok (place, n) →
      n.isDir = true ∨ d.isWritable place.dropLast = false)
    {place : List Name} {n : Node} (hn : d'.locate cwd p false = .ok (place, n)) :
    n.isDir = true ∨ d'.isWritable place.dropLast = false := by
  obtain ⟨m, hm, hk⟩ := locate_of_within h hn
  rw [← Node.isDir_eq_of_kind_eq hk]
  refine (hd place m hm).imp_right fun hw => Bool.eq_false_iff.mpr fun hw' => ?_
  -- the directory is still there, and so it is the same
  obtain ⟨l, hl⟩ := isWritable_iff.mp hw'
  have hsame := h _ (ne_of_eq_of_ne hl (by simp))
  rw [isWritable_congr hsame, hw] at hw'
  cases hw'

end

end Disk

end SuiteGate
