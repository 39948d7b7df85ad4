import SuiteGate.Proofs.Disk.Removals
import SuiteGate.Proofs.Disk.SortedWalks
import SuiteGate.Proofs.Vendored.Sources
/-!
# Which original is taken

A source tree may hold several regular files of one name.  A refresh takes the first one of them
(`IsFirstOriginal`), where the names that lead to two files are compared one after the other and
byte by byte (`Precedes`).  This is so because the tree is walked in that order, and what is found
first on a list in an order is the least (`isFirstOriginal_of_findSource`); no two files are first
(`IsFirstOriginal.unique`).

The headline is `findSource_spec`.  As the order in which directories have their entries does not
matter for which files there are, it does not matter for the one that is found.
-/

namespace SuiteGate.Vendored

section

variable {d d' : Disk} {cwd : List Name} {root p : Path} {name : String} {rel rel' : List Name}

/-- Of all files of a name in a tree, the one that stands there comes first. -/
structure IsFirstOriginal (d : Disk) (cwd : List Name) (root : Path) (name : String)
    (rel : List Name) : Prop where
  isOriginal : IsOriginal d cwd root name rel
  first : ∀ other, IsOriginal d cwd root name other → other = rel ∨ Precedes rel other

theorem IsFirstOriginal.unique (h : IsFirstOriginal d cwd root name rel)
    (h' : IsFirstOriginal d cwd root name rel') : rel = rel' := by
  rcases h.first rel' h'.isOriginal with heq | hbefore
  · exact heq.symm
  · rcases h'.first rel h.isOriginal with heq | hbehind
    · exact heq
    · exact absurd hbehind hbefore.asymm

/-- **What is found comes first** among the files of the name. -/
theorem isFirstOriginal_of_findSource (h : findSource d cwd root name = some p) :
    ∃ rel, IsFirstOriginal d cwd root name rel ∧ p = root.below rel := by
  rw [findSource, firstNamed_eq, Option.map_eq_some_iff] at h
  obtain ⟨item, hfind, rfl⟩ := h
  obtain ⟨hmem, hnamed, hleast⟩ := (find?_eq_some_iff_of_pairwise (fun _ _ => Precedes.asymm)
    Disk.pairwise_items_sortedWalk).mp hfind
  refine ⟨item.below, ⟨isOriginal_iff.mpr ⟨item, hmem, hnamed, rfl⟩, ?_⟩,
    Disk.path_of_mem_walk (Disk.mem_sortedWalk_iff.mp (Walk.mem_items_iff.mp hmem))⟩
  intro other hother
  obtain ⟨item', hmem', hnamed', rfl⟩ := isOriginal_iff.mp hother
  exact (hleast item' hmem' hnamed').imp (fun heq => congrArg WalkItem.below heq.symm) id

/-- **The file that is found** is the first one. -/
theorem findSource_eq_some_iff : findSource d cwd root name = some p ↔
    ∃ rel, IsFirstOriginal d cwd root name rel ∧ p = root.below rel := by
  refine ⟨isFirstOriginal_of_findSource, ?_⟩
  rintro ⟨rel, hrel, rfl⟩
  obtain ⟨p, hp⟩ := exists_findSource_iff.mpr (exists_isOriginal_iff.mp ⟨rel, hrel.isOriginal⟩)
  obtain ⟨rel', hrel', rfl⟩ := isFirstOriginal_of_findSource hp
  rwa [hrel.unique hrel']

/-! ### The order of entries -/

theorem IsOriginal.of_within (h : d'.Within d) (ho : IsOriginal d' cwd root name rel) :
    IsOriginal d cwd root name rel := by
  cases ho with
  | root hl hname =>
    obtain ⟨n, hn, hk⟩ := Disk.lstat_of_within h hl
    obtain rfl := Node.kind_eq_file_iff.mp hk
    exact .root hn hname
  | below hreaches hname =>
    obtain ⟨n, hn, hk⟩ := hreaches.of_within h
    obtain rfl := Node.kind_eq_file_iff.mp hk
    exact .below hn hname

theorem isOriginal_congr (h : d.SameTree d') :
    IsOriginal d' cwd root name rel ↔ IsOriginal d cwd root name rel :=
  ⟨.of_within h.within, .of_within h.symm.within⟩

theorem isFirstOriginal_congr (h : d.SameTree d') :
    IsFirstOriginal d' cwd root name rel ↔ IsFirstOriginal d cwd root name rel := by
  constructor
  · rintro ⟨ho, hfirst⟩
    exact ⟨(isOriginal_congr h).mp ho, fun other hother =>
      hfirst other ((isOriginal_congr h).mpr hother)⟩
  · rintro ⟨ho, hfirst⟩
    exact ⟨(isOriginal_congr h).mpr ho, fun other hother =>
      hfirst other ((isOriginal_congr h).mp hother)⟩

end

/-- **The original of a file.**  In a tree a file is found exactly if a regular file of the name can
be reached in it; it is the one whose names below the root of the tree come before those of all
others; and it does not depend on the order in which directories have their entries. -/
theorem findSource_spec (d : Disk) (cwd : List Name) (root : Path) (name : String) :
    ((∃ p, findSource d cwd root name = some p) ↔ ∃ rel, IsOriginal d cwd root name rel) ∧
    (∀ p, findSource d cwd root name = some p ↔
      ∃ rel, IsFirstOriginal d cwd root name rel ∧ p = root.below rel) ∧
    ∀ d', d.SameTree d' → findSource d' cwd root name = findSource d cwd root name := by
  refine ⟨exists_findSource_iff.trans exists_isOriginal_iff.symm,
    fun _ => findSource_eq_some_iff, fun d' h => Option.ext fun p => ?_⟩
  simp only [findSource_eq_some_iff, isFirstOriginal_congr h]

end SuiteGate.Vendored
