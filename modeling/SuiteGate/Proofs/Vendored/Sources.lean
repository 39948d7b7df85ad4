import SuiteGate.Proofs.Disk.Walks
import SuiteGate.Vendored.Refresh
/-!
# Where inlined files are found

The files that a refresh treats come from one of two source trees (`Origin`), and each tree is asked
for files of certain endings (`Origin.takes`).  What becomes of a file is settled by its name in
the source tree: it is kept, or it is copied from its source (`Refresh.source?`), if there is one
(`Refresh.treatment_eq`).

The headline is `Refresh.exists_source_iff`.  A file has a source if a regular file of its name can
be reached in the tree (`HoldsFile`).
-/

namespace SuiteGate.Vendored

/-- The trees that files are taken over from. -/
inductive Origin where
  | pypy
  | cpython
deriving DecidableEq, Repr

namespace Origin

/-- Whether files of a name are taken over from a tree. -/
def takes : Origin → String → Bool
  | pypy, name => Text.endsWith name ".py"
  | cpython, name => Text.endsWith name ".c" || Text.endsWith name ".h"

/-- The last character of a name tells the trees apart. -/
theorem getLast?_of_takes {o : Origin} {name : String} (h : o.takes name = true) :
    ∃ c ∈ name.toList.getLast?, c = 'y' ∧ o = pypy ∨ (c = 'c' ∨ c = 'h') ∧ o = cpython := by
  have hlast : ∀ ending c, ending.toList.getLast? = some c → Text.endsWith name ending = true →
      name.toList.getLast? = some c := by
    intro ending c hc hends
    obtain ⟨init, hinit⟩ := List.isSuffixOf_iff_suffix.mp hends
    rw [← hinit, List.getLast?_append, hc, Option.some_or]
  cases o with
  | pypy => exact ⟨'y', hlast ".py" 'y' (by decide) h, .inl ⟨rfl, rfl⟩⟩
  | cpython =>
    rcases (Bool.or_eq_true _ _).mp h with h | h
    · exact ⟨'c', hlast ".c" 'c' (by decide) h, .inr ⟨.inl rfl, rfl⟩⟩
    · exact ⟨'h', hlast ".h" 'h' (by decide) h, .inr ⟨.inr rfl, rfl⟩⟩

/-- **A name is taken over from one tree** at most. -/
theorem eq_of_takes {o o' : Origin} {name : String} (h : o.takes name = true)
    (h' : o'.takes name = true) : o = o' := by
  obtain ⟨c, hc, hcase⟩ := getLast?_of_takes h
  obtain ⟨c', hc', hcase'⟩ := getLast?_of_takes h'
  obtain rfl := Option.mem_unique hc hc'
  rcases hcase with ⟨rfl, rfl⟩ | ⟨hc, rfl⟩ <;> rcases hcase' with ⟨hc', rfl⟩ | ⟨hc', rfl⟩
  · rfl
  · simp at hc'
  · simp [hc'] at hc
  · rfl

end Origin

/-- Whether a file only holds the code of tests. -/
def isTestFile (f : Path) : Bool :=
  (sourceName? f).any fun name => Text.endsWith name ".py" && isTestCode name

/-- The files on a list, and those that no list has, in the order in which they are treated. -/
def Listing.occurrences (l : Listing) : List (Origin × Path) :=
  (l.pypy ++ extraFiles).map (Origin.pypy, ·) ++ l.cpython.map (Origin.cpython, ·)

/-! ### Finding a file -/

/-- In a tree there is a regular file of a name, not behind a directory that cannot be listed; it
may be all of the tree. -/
def HoldsFile (d : Disk) (cwd : List Name) (root : Path) (name : String) : Prop :=
  (∃ rel x data, d.Reaches cwd root (rel ++ [x]) (.file data) ∧ x.text = name) ∨
    (∃ data, d.lstat cwd root = .ok (.file data)) ∧ root.fileName?.getD root.text = name

/-- A regular file of a name stands in a tree at the end of some names below its root, not behind a
directory that cannot be listed; without names it is all of the tree. -/
inductive IsOriginal (d : Disk) (cwd : List Name) (root : Path) (name : String) : List Name → Prop
  | root {data : FileData} : d.lstat cwd root = .ok (.file data) →
    root.fileName?.getD root.text = name → IsOriginal d cwd root name []
  | below {rel : List Name} {x : Name} {data : FileData} :
    d.Reaches cwd root (rel ++ [x]) (.file data) → x.text = name →
      IsOriginal d cwd root name (rel ++ [x])

/-- Whether what a walk came by is a regular file of a name. -/
def isNamedFile (name : String) (item : WalkItem) : Bool :=
  item.node.isFile && itemName item = name

section

variable {d : Disk} {cwd : List Name} {root p : Path} {name : String}

theorem isNamedFile_iff {item : WalkItem} :
    isNamedFile name item = true ↔ (∃ data, item.node = .file data) ∧ itemName item = name := by
  rw [isNamedFile, Bool.and_eq_true, decide_eq_true_eq]
  cases item.node <;> simp [Node.isFile]

theorem firstNamed_eq (name : String) (walk : Walk) :
    firstNamed name walk = (walk.items.find? (isNamedFile name)).map WalkItem.path := by
  induction walk with
  | nil => rfl
  | cons i walk ih =>
    rw [firstNamed] at ih ⊢
    cases i with
    | error fault => exact ih
    | ok item =>
      have hitems : Walk.items (.ok item :: walk) = item :: Walk.items walk := rfl
      have hitem : (item.node.isFile && itemName item = name) = isNamedFile name item := rfl
      rw [hitems, List.find?_cons, List.findSome?_cons, ih]
      dsimp only
      rw [hitem]
      cases isNamedFile name item <;> rfl

/-- **The originals in a tree** are the regular files of the name that a walk comes by. -/
theorem isOriginal_iff {rel : List Name} :
    IsOriginal d cwd root name rel ↔ ∃ item ∈ (d.sortedWalk cwd root).items,
      isNamedFile name item = true ∧ item.below = rel := by
  simp only [Walk.mem_items_iff, Disk.mem_sortedWalk_iff, isNamedFile_iff]
  constructor
  · rintro (⟨hl, rfl⟩ | ⟨hreaches, rfl⟩)
    · have hreaches : d.Reaches cwd root [] (.file _) :=
        ⟨.file _, Disk.stat_of_lstat hl rfl, .self _⟩
      exact ⟨_, hreaches.mem_walk fun _ => hl, ⟨⟨_, rfl⟩, rfl⟩, rfl⟩
    · exact ⟨_, hreaches.mem_walk (by simp), ⟨⟨_, rfl⟩, by simp [itemName]⟩, rfl⟩
  · rintro ⟨⟨path, below, node⟩, hi, ⟨⟨data, rfl⟩, rfl⟩, rfl⟩
    rcases List.eq_nil_or_concat' below with rfl | ⟨rel, x, rfl⟩
    · obtain rfl : path = root := Disk.path_of_mem_walk hi
      exact .root (Disk.lstat_of_mem_walk hi rfl) rfl
    · exact .below (Disk.reaches_of_mem_walk hi (by simp)) (by simp [itemName])

theorem exists_isOriginal_iff :
    (∃ rel, IsOriginal d cwd root name rel) ↔ HoldsFile d cwd root name := by
  constructor
  · rintro ⟨-, ⟨hl, hname⟩ | ⟨hreaches, hname⟩⟩
    · exact .inr ⟨⟨_, hl⟩, hname⟩
    · exact .inl ⟨_, _, _, hreaches, hname⟩
  · rintro (⟨rel, x, data, hreaches, hname⟩ | ⟨⟨data, hl⟩, hname⟩)
    · exact ⟨_, .below hreaches hname⟩
    · exact ⟨_, .root hl hname⟩

/-- **A file is found** if there is one. -/
theorem exists_findSource_iff :
    (∃ p, findSource d cwd root name = some p) ↔ HoldsFile d cwd root name := by
  simp only [← exists_isOriginal_iff, isOriginal_iff, findSource, firstNamed_eq]
  rw [← Option.isSome_iff_exists, Option.isSome_map, List.find?_isSome]
  constructor
  · rintro ⟨item, hi, hnamed⟩
    exact ⟨item.below, item, hi, hnamed, rfl⟩
  · rintro ⟨rel, item, hi, hnamed, -⟩
    exact ⟨item, hi, hnamed⟩

/-- **What is found** is reached in the tree. -/
theorem exists_reaches_of_findSource (h : findSource d cwd root name = some p) :
    ∃ rel data, d.Reaches cwd root rel (.file data) ∧ p = root.below rel := by
  rw [findSource, firstNamed_eq, Option.map_eq_some_iff] at h
  obtain ⟨item, hfind, rfl⟩ := h
  obtain ⟨⟨data, hnode⟩, -⟩ := isNamedFile_iff.mp (List.find?_some hfind)
  have hi := Disk.mem_sortedWalk_iff.mp (Walk.mem_items_iff.mp (List.mem_of_find?_eq_some hfind))
  refine ⟨item.below, data, ?_, Disk.path_of_mem_walk hi⟩
  by_cases hstart : item.below = []
  · have hl := Disk.lstat_of_mem_walk hi hstart
    rw [hnode] at hl
    rw [hstart]
    exact ⟨.file data, Disk.stat_of_lstat hl rfl, .self _⟩
  · exact hnode ▸ Disk.reaches_of_mem_walk hi hstart

end

namespace Refresh

section

variable (r : Refresh)

/-- The tree of an origin. -/
def root : Origin → Path
  | .pypy => r.pypy
  | .cpython => r.cpython

/-- The treatment of the files of an origin. -/
def treatment : Origin → Disk → List Name → Path → Treatment
  | .pypy => fun d cwd => Treatment.ofPypy d cwd r.pypy
  | .cpython => fun d cwd => Treatment.ofCpython d cwd r.cpython

/-- The file that a file is copied from. -/
def source? (d : Disk) (cwd : List Name) (e : Origin × Path) : Option Path :=
  (sourceName? e.2).bind fun name =>
    if e.1.takes name then findSource d cwd (r.root e.1) name else none

theorem files_eq (l : Listing) :
    r.files l = l.occurrences.map fun e => (e.2, r.treatment e.1) := by
  simp only [files, Listing.occurrences, List.map_append, List.map_map]
  rfl

/-- **What becomes of a file:** it is kept if it only holds the code of tests, else it is copied
from its source, if it has one. -/
theorem treatment_eq (d : Disk) (cwd : List Name) (e : Origin × Path) :
    r.treatment e.1 d cwd e.2 =
      if isTestFile e.2 then .keep else .ofSource (r.source? d cwd e) := by
  obtain ⟨o, f⟩ := e
  cases hname : sourceName? f with
  | none =>
    simp only [isTestFile, source?, hname, Option.any_none, Option.bind_none, Bool.false_eq_true,
      if_false]
    cases o <;> simp only [treatment, Treatment.ofPypy, Treatment.ofCpython, hname] <;> rfl
  | some name =>
    simp only [isTestFile, source?, hname, Option.any_some, Option.bind_some]
    cases o with
    | pypy =>
      simp only [treatment, Treatment.ofPypy, hname, Origin.takes, root]
      by_cases hpy : Text.endsWith name ".py" = true
      · by_cases htest : isTestCode name = true <;> simp [hpy, htest]
      · simp [hpy, Treatment.ofSource]
    | cpython =>
      have htakes : (Text.endsWith name ".c" || Text.endsWith name ".h") =
        Origin.cpython.takes name := rfl
      simp only [treatment, Treatment.ofCpython, hname, htakes, root]
      by_cases hc : Origin.cpython.takes name = true
      · -- a name of this tree is none of the other
        have hpy : ¬ Text.endsWith name ".py" = true := fun hpy =>
          nomatch @Origin.eq_of_takes .cpython .pypy name hc hpy
        simp [hc, hpy]
      · by_cases hpy : Text.endsWith name ".py" = true
        · by_cases htest : isTestCode name = true <;> simp [hc, hpy, htest, Treatment.ofSource]
        · simp [hc, hpy, Treatment.ofSource]

theorem treatment_eq_keep_iff {d : Disk} {cwd : List Name} {e : Origin × Path} :
    r.treatment e.1 d cwd e.2 = .keep ↔ isTestFile e.2 = true := by
  rw [treatment_eq]
  cases isTestFile e.2 <;> cases r.source? d cwd e <;> simp [Treatment.ofSource]

theorem treatment_eq_missing_iff {d : Disk} {cwd : List Name} {e : Origin × Path} :
    r.treatment e.1 d cwd e.2 = .missing ↔
      isTestFile e.2 = false ∧ r.source? d cwd e = none := by
  rw [treatment_eq]
  cases isTestFile e.2 <;> cases r.source? d cwd e <;> simp [Treatment.ofSource]

theorem treatment_eq_copy_iff {d : Disk} {cwd : List Name} {e : Origin × Path} {p : Path} :
    r.treatment e.1 d cwd e.2 = .copy p ↔
      isTestFile e.2 = false ∧ r.source? d cwd e = some p := by
  rw [treatment_eq]
  cases isTestFile e.2 <;> cases r.source? d cwd e <;> simp [Treatment.ofSource]

/-- **A file has a source** if there is one of its name, and of the right ending, in its tree. -/
theorem exists_source_iff {d : Disk} {cwd : List Name} {e : Origin × Path} :
    (∃ p, r.source? d cwd e = some p) ↔ ∃ name, sourceName? e.2 = some name ∧
      e.1.takes name = true ∧ HoldsFile d cwd (r.root e.1) name := by
  simp only [source?, Option.bind_eq_some_iff, Option.ite_none_right_eq_some,
    ← exists_findSource_iff]
  exact ⟨fun ⟨p, name, hname, htakes, hp⟩ => ⟨name, hname, htakes, p, hp⟩,
    fun ⟨name, hname, htakes, p, hp⟩ => ⟨p, name, hname, htakes, hp⟩⟩

end

end Refresh

end SuiteGate.Vendored
