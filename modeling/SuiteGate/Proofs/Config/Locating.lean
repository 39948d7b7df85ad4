import SuiteGate.Config.Locate
import SuiteGate.Proofs.Disk.Listings
import SuiteGate.Proofs.Disk.Spellings
/-!
# Which configuration is found

A configuration file can be in a directory itself, or in a directory there that a suite keeps for
its settings (`IsIn`).  Of those in one directory, the files in the directory itself come first,
then an earlier name, then the suite's directory that comes first by its name (`Spot.Before`).
The search goes through the directory where it starts and those above it (`level?`) and takes the
first file of the first level that has one: `find?_eq_some_iff_least`.

The steps are these.  The places that are tried in one directory are listed in their order
(`pairwise_spots`, `isIn_iff`), so the first of them with a file is the least
(`first?_eq_some_iff`).  It neither depends on the order in which the directory is listed
(`isIn_congr`) nor on how its path is spelled (`first?_congr`).  The search finds the first
file of the nearest level (`find?_eq_some_iff`), and nothing if there is none at any level
(`find?_eq_none_iff`).
-/

namespace SuiteGate.Config

/-- The directory so many levels above a directory. -/
def level? : ℕ → Path → Option Path
  | 0, dir => some dir
  | n + 1, dir => dir.parent?.bind (level? n)

/-- Where in a directory a configuration file can be: in one that a suite keeps there or in the
directory itself, and under which of the names. -/
structure Spot where
  suiteDir : Option Name
  rank : ℕ

/-- **The order of preference:** what is in the directory itself, then an earlier name, then what
is in the suite's directory with the name that comes first. -/
inductive Spot.Before : Spot → Spot → Prop
  | direct {x : Name} {i j : ℕ} : Before ⟨none, i⟩ ⟨some x, j⟩
  | name {x y : Option Name} {i j : ℕ} : x.isSome = y.isSome → i < j → Before ⟨x, i⟩ ⟨y, j⟩
  | suiteDir {x y : Name} {i : ℕ} : x.text < y.text → Before ⟨some x, i⟩ ⟨some y, i⟩

/-- A configuration file is in a directory.  The directories in one that cannot be listed are not
known. -/
inductive IsIn (d : Disk) (cwd : List Name) (level : Path) : Spot → Path → Prop
  | direct {i : ℕ} {name : String} : fileNames[i]? = some name →
    d.pathExists cwd (level.child name) = true → IsIn d cwd level ⟨none, i⟩ (level.child name)
  | inSuiteDir {x : Name} {i : ℕ} {name : String} : fileNames[i]? = some name →
    isSuiteDirName x.text = true → (∃ es, d.readDir cwd level = .ok es) →
    d.isDir cwd (level.child x.text) = true →
    d.pathExists cwd ((level.child x.text).child name) = true →
      IsIn d cwd level ⟨some x, i⟩ ((level.child x.text).child name)

/-- A configuration file is in the directory so many levels above a directory. -/
def IsCandidate (d : Disk) (cwd : List Name) (dir : Path) (n : ℕ) (s : Spot) (file : Path) : Prop :=
  ∃ level, level? n dir = some level ∧ IsIn d cwd level s file

/-- A level is the nearest one with a configuration file. -/
def IsNearest (d : Disk) (cwd : List Name) (dir : Path) (level : Path) : Prop :=
  ∃ n, level? n dir = some level ∧ (∃ s file, IsIn d cwd level s file) ∧
    ∀ m < n, ∀ s file, ¬ IsCandidate d cwd dir m s file

/-! ### One directory -/

section

variable {d d' : Disk} {cwd : List Name} {level level' file : Path} {s : Spot}

/-- The names of the directories in a directory that suites keep, in their order. -/
def suiteNames (d : Disk) (cwd : List Name) (level : Path) : List Name :=
  match d.readDir cwd level with
  | .ok entries =>
    ((entries.map (·.1)).filter fun n =>
      isSuiteDirName n.text && d.isDir cwd (level.child n.text)).mergeSort Node.nameLe
  | .error _ => []

/-- The path of a spot in a directory. -/
def Spot.path (level : Path) (s : Spot) : Path :=
  let dir := match s.suiteDir with
    | none => level
    | some x => level.child x.text
  dir.child (fileNames.getD s.rank "")

/-- The spots in a directory that are tried, in their order. -/
def spots (d : Disk) (cwd : List Name) (level : Path) : List Spot :=
  (List.range fileNames.length).map (⟨none, ·⟩) ++
    (List.range fileNames.length).flatMap fun i =>
      (suiteNames d cwd level).map fun x => ⟨some x, i⟩

/-- The first configuration file in a directory. -/
def first? (d : Disk) (cwd : List Name) (level : Path) : Option Path :=
  (candidates d cwd level).find? (d.pathExists cwd)

theorem candidates_eq : candidates d cwd level = (spots d cwd level).map (Spot.path level) := by
  have hdirs : suiteDirs d cwd level =
      (suiteNames d cwd level).map fun n => level.child n.text := by
    rw [suiteDirs, suiteNames]
    cases d.readDir cwd level <;> rfl
  have hnames : fileNames = (List.range fileNames.length).map fun i => fileNames.getD i "" := rfl
  rw [candidates, spots, hdirs, List.map_append, List.map_flatMap]
  simp only [List.map_map]
  conv_lhs => rw [hnames]
  rw [List.map_map, List.flatMap_map]
  rfl

theorem mem_suiteNames_iff {x : Name} :
    x ∈ suiteNames d cwd level ↔ isSuiteDirName x.text = true ∧
      (∃ es, d.readDir cwd level = .ok es) ∧ d.isDir cwd (level.child x.text) = true := by
  rw [suiteNames]
  cases hdir : d.readDir cwd level with
  | error e => simp
  | ok es =>
    simp only [List.mem_mergeSort, List.mem_filter, Bool.and_eq_true, Except.ok.injEq, exists_eq',
      true_and]
    refine ⟨fun h => h.2, fun h => ⟨?_, h⟩⟩
    exact Disk.mem_readDir_of_isDir_child hdir h.2

theorem nodup_suiteNames : (suiteNames d cwd level).Pairwise fun x y => x.text < y.text := by
  rw [suiteNames]
  cases hdir : d.readDir cwd level with
  | error e => exact .nil
  | ok es => exact Node.pairwise_lt_mergeSort ((Disk.nodup_of_readDir hdir).filter _)

/-- **The spots that are tried** come in the order of preference. -/
theorem pairwise_spots : (spots d cwd level).Pairwise Spot.Before := by
  rw [spots, List.pairwise_append]
  refine ⟨?_, ?_, ?_⟩
  · rw [List.pairwise_map]
    exact List.pairwise_lt_range.imp fun hij => .name rfl hij
  · rw [List.pairwise_flatMap]
    constructor
    · intro i _
      rw [List.pairwise_map]
      exact nodup_suiteNames.imp fun hxy => .suiteDir hxy
    · refine List.pairwise_lt_range.imp fun hij s hs t ht => ?_
      obtain ⟨x, -, rfl⟩ := List.mem_map.mp hs
      obtain ⟨y, -, rfl⟩ := List.mem_map.mp ht
      exact .name rfl hij
  · intro s hs t ht
    obtain ⟨i, -, rfl⟩ := List.mem_map.mp hs
    obtain ⟨j, -, ht⟩ := List.mem_flatMap.mp ht
    obtain ⟨x, -, rfl⟩ := List.mem_map.mp ht
    exact .direct

theorem getElem?_fileNames_iff {i : ℕ} {name : String} :
    fileNames[i]? = some name ↔ i < fileNames.length ∧ fileNames.getD i "" = name := by
  rw [List.getElem?_eq_some_iff, List.getD_eq_getElem?_getD]
  constructor
  · rintro ⟨hi, rfl⟩
    exact ⟨hi, by simp [hi]⟩
  · rintro ⟨hi, rfl⟩
    exact ⟨hi, by simp [hi]⟩

/-- **The files in a directory** are those of the spots that are tried. -/
theorem isIn_iff :
    IsIn d cwd level s file ↔
      s ∈ spots d cwd level ∧ s.path level = file ∧ d.pathExists cwd file = true := by
  simp only [spots, List.mem_append, List.mem_map, List.mem_flatMap, List.mem_range,
    mem_suiteNames_iff]
  constructor
  · intro h
    cases h with
    | @direct i name hname hexists =>
      obtain ⟨hi, rfl⟩ := getElem?_fileNames_iff.mp hname
      exact ⟨.inl ⟨i, hi, rfl⟩, rfl, hexists⟩
    | @inSuiteDir x i name hname hsuite hlist hdir hexists =>
      obtain ⟨hi, rfl⟩ := getElem?_fileNames_iff.mp hname
      exact ⟨.inr ⟨i, hi, x, ⟨hsuite, hlist, hdir⟩, rfl⟩, rfl, hexists⟩
  · rintro ⟨⟨i, hi, rfl⟩ | ⟨i, hi, x, ⟨hsuite, hlist, hdir⟩, rfl⟩, rfl, hexists⟩
    · exact .direct (getElem?_fileNames_iff.mpr ⟨hi, rfl⟩) hexists
    · exact .inSuiteDir (getElem?_fileNames_iff.mpr ⟨hi, rfl⟩) hsuite hlist hdir hexists

theorem Spot.Before.asymm {s t : Spot} (h : s.Before t) : ¬ t.Before s := by
  intro h'
  cases h with
  | direct =>
    cases h' with
    | name hsome _ => simp at hsome
  | name hsome hij =>
    cases h' with
    | direct => simp at hsome
    | name _ hji => omega
    | suiteDir _ => omega
  | suiteDir hxy =>
    cases h' with
    | name _ hji => omega
    | suiteDir hyx => exact String.lt_asymm hxy hyx

/-- **The first file in a directory** is the least. -/
theorem first?_eq_some_iff :
    first? d cwd level = some file ↔ ∃ s, IsIn d cwd level s file ∧
      ∀ t other, IsIn d cwd level t other → s = t ∨ s.Before t := by
  rw [first?, candidates_eq, List.find?_map, Option.map_eq_some_iff]
  constructor
  · rintro ⟨s, hs, rfl⟩
    obtain ⟨hmem, hexists, hleast⟩ :=
      (find?_eq_some_iff_of_pairwise (fun _ _ => Spot.Before.asymm) pairwise_spots).mp hs
    refine ⟨s, isIn_iff.mpr ⟨hmem, rfl, hexists⟩, fun t other ht => ?_⟩
    obtain ⟨htmem, rfl, htexists⟩ := isIn_iff.mp ht
    exact hleast t htmem htexists
  · rintro ⟨s, hs, hleast⟩
    obtain ⟨hmem, rfl, hexists⟩ := isIn_iff.mp hs
    refine ⟨s, ?_, rfl⟩
    refine (find?_eq_some_iff_of_pairwise (fun _ _ => Spot.Before.asymm) pairwise_spots).mpr
      ⟨hmem, hexists, fun t ht htexists => ?_⟩
    exact hleast t _ (isIn_iff.mpr ⟨ht, rfl, htexists⟩)

theorem first?_eq_none_iff :
    first? d cwd level = none ↔ ∀ s file, ¬ IsIn d cwd level s file := by
  rw [first?, candidates_eq, List.find?_map, Option.map_eq_none_iff, List.find?_eq_none]
  constructor
  · intro h s file hs
    obtain ⟨hmem, rfl, hexists⟩ := isIn_iff.mp hs
    exact h s hmem hexists
  · intro h s hmem hexists
    exact h s _ (isIn_iff.mpr ⟨hmem, rfl, hexists⟩)

/-! ### What the search does not depend on -/

theorem IsIn.of_sameTree (h : d.SameTree d') (hs : IsIn d cwd level s file) :
    IsIn d' cwd level s file := by
  have hwithin : d.Within d' := h.symm.within
  cases hs with
  | direct hname hexists => exact .direct hname (Disk.pathExists_of_within hwithin hexists)
  | inSuiteDir hname hsuite hlist hdir hexists =>
    refine .inSuiteDir hname hsuite ?_ ?_ (Disk.pathExists_of_within hwithin hexists)
    · obtain ⟨es, hes⟩ := hlist
      obtain ⟨w, hstat⟩ := Disk.readDir_eq_ok_iff.mp hes
      obtain ⟨m, hm, hk⟩ := Disk.stat_of_within hwithin hstat
      obtain ⟨es', rfl⟩ := Node.kind_eq_dir_iff.mp hk
      exact ⟨es', Disk.readDir_eq_ok_iff.mpr ⟨w, hm⟩⟩
    · obtain ⟨n, hn, hisDir⟩ := Disk.isDir_iff.mp hdir
      obtain ⟨m, hm, hk⟩ := Disk.stat_of_within hwithin hn
      exact Disk.isDir_iff.mpr ⟨m, hm, (Node.isDir_eq_of_kind_eq hk).trans hisDir⟩

/-- **The order in which a directory is listed** does not matter. -/
theorem isIn_congr (h : d.SameTree d') : IsIn d' cwd level s file ↔ IsIn d cwd level s file :=
  ⟨.of_sameTree h.symm, .of_sameTree h⟩

theorem exists_name_of_getElem? {i : ℕ} {name : String} (h : fileNames[i]? = some name) :
    ∃ x : Name, x.text = name := by
  have hmem : name ∈ fileNames := List.mem_of_getElem? h
  have hvalid : ∀ t ∈ fileNames,
      (t != "" && t != "." && t != ".." && !t.toList.contains '/') = true := by decide
  exact ⟨⟨name, hvalid name hmem⟩, rfl⟩

/-- Two spellings of the path of a file. -/
structure SameFile (d : Disk) (cwd : List Name) (file file' : Path) : Prop where
  isAbsolute : file.isAbsolute = true
  not_root : file.components ≠ [.root]
  components : file.components = file'.components
  stat : d.stat cwd file = d.stat cwd file'

theorem sameFile_child {p q : Path} {i : ℕ} {name : String} (hp : p.isAbsolute = true)
    (hq : q.isAbsolute = true) (h : p.components = q.components)
    (hname : fileNames[i]? = some name) : SameFile d cwd (p.child name) (q.child name) := by
  obtain ⟨x, rfl⟩ := exists_name_of_getElem? hname
  refine ⟨Path.isAbsolute_child p x hp, ?_, ?_, Disk.stat_child_congr h x⟩
  · rw [Path.components_child hp, Path.components_of_isAbsolute hp]
    simp
  · rw [Path.components_child hp, Path.components_child hq, h]

theorem SameFile.pathExists {file' : Path} (h : SameFile d cwd file file')
    (hexists : d.pathExists cwd file = true) : d.pathExists cwd file' = true := by
  rw [Disk.pathExists, ← h.stat]
  exact hexists

/-- A file is in a directory however the path of the directory is spelled. -/
theorem IsIn.of_components_eq (hl : level.isAbsolute = true) (hl' : level'.isAbsolute = true)
    (h : level.components = level'.components) (hs : IsIn d cwd level s file) :
    IsIn d cwd level' s (s.path level') ∧ SameFile d cwd file (s.path level') := by
  cases hs with
  | @direct i name hname hexists =>
    have hpath : Spot.path level' ⟨none, i⟩ = level'.child name :=
      congrArg level'.child (getElem?_fileNames_iff.mp hname).2
    have hsame : SameFile d cwd (level.child name) (level'.child name) :=
      sameFile_child hl hl' h hname
    rw [hpath]
    exact ⟨.direct hname (hsame.pathExists hexists), hsame⟩
  | @inSuiteDir x i name hname hsuite hlist hdir hexists =>
    have hpath : Spot.path level' ⟨some x, i⟩ = (level'.child x.text).child name :=
      congrArg (level'.child x.text).child (getElem?_fileNames_iff.mp hname).2
    have hchild : (level.child x.text).components = (level'.child x.text).components := by
      rw [Path.components_child hl, Path.components_child hl', h]
    have hsame : SameFile d cwd ((level.child x.text).child name)
        ((level'.child x.text).child name) :=
      sameFile_child (Path.isAbsolute_child _ x hl) (Path.isAbsolute_child _ x hl') hchild hname
    rw [hpath]
    refine ⟨.inSuiteDir hname hsuite ?_ ?_ (hsame.pathExists hexists), hsame⟩
    · obtain ⟨es, hes⟩ := hlist
      obtain ⟨w, hstat⟩ := Disk.readDir_eq_ok_iff.mp hes
      exact ⟨es, Disk.readDir_eq_ok_iff.mpr ⟨w, (Disk.stat_dir_congr hl hl' h rfl).mp hstat⟩⟩
    · rw [Disk.isDir, ← Disk.stat_child_congr h, ← Disk.isDir]
      exact hdir

/-- **The spelling of a directory's path** does not matter. -/
theorem first?_congr (hl : level.isAbsolute = true) (hl' : level'.isAbsolute = true)
    (h : level.components = level'.components) (hfile : first? d cwd level = some file) :
    ∃ file', first? d cwd level' = some file' ∧ SameFile d cwd file file' := by
  obtain ⟨s, hs, hleast⟩ := first?_eq_some_iff.mp hfile
  obtain ⟨hs', hsame⟩ := hs.of_components_eq hl hl' h
  refine ⟨s.path level', first?_eq_some_iff.mpr ⟨s, hs', fun t other ht => ?_⟩, hsame⟩
  exact hleast t _ (ht.of_components_eq hl' hl h.symm).1

end

/-! ### Levels -/

section

variable {d d' : Disk} {cwd : List Name} {dir level file : Path}

/-- **The levels of an absolute path** have ever fewer of its components, down to the root's. -/
theorem components_level? (habs : dir.isAbsolute = true) (n : ℕ) :
    (level? n dir).map Path.components =
      if n < dir.components.length then
        some (dir.components.take (dir.components.length - n))
      else none := by
  induction n generalizing dir with
  | zero =>
    have hpos : 0 < dir.components.length := by
      rw [Path.components_of_isAbsolute habs]
      simp
    rw [if_pos hpos, Nat.sub_zero, List.take_length]
    rfl
  | succ n ih =>
    rw [level?]
    cases hparent : dir.parent? with
    | none =>
      rw [(Path.parent?_eq_none_iff habs).mp hparent]
      simp
    | some above =>
      obtain ⟨c, hc⟩ := Path.components_parent? habs hparent
      have hlen : dir.components.length = above.components.length + 1 := by simp [hc]
      rw [Option.bind_some, ih ((Path.isAbsolute_parent? hparent).trans habs), hlen, hc]
      by_cases hn : n < above.components.length
      · rw [if_pos hn, if_pos (by omega), List.take_append_of_le_length (by omega)]
        congr 2
        omega
      · rw [if_neg hn, if_neg (by omega)]

theorem isAbsolute_level? (habs : dir.isAbsolute = true) {n : ℕ} (h : level? n dir = some level) :
    level.isAbsolute = true := by
  induction n generalizing dir with
  | zero => exact Option.some.inj h ▸ habs
  | succ n ih =>
    obtain ⟨above, hparent, h⟩ := Option.bind_eq_some_iff.mp h
    exact ih ((Path.isAbsolute_parent? hparent).trans habs) h

/-! ### The search -/

theorem IsNearest.isAbsolute (habs : dir.isAbsolute = true) (h : IsNearest d cwd dir level) :
    level.isAbsolute = true := by
  obtain ⟨n, hlevel, -, -⟩ := h
  exact isAbsolute_level? habs hlevel

theorem findFrom_zero (dir : Path) : findFrom d cwd 0 dir = none := rfl

theorem findFrom_succ (n : ℕ) (dir : Path) :
    findFrom d cwd (n + 1) dir =
      match first? d cwd dir with
      | some file => some file
      | none => dir.parent?.bind (findFrom d cwd n) := rfl

/-- What is found is the first file of a level below which there is none. -/
theorem exists_level_of_findFrom {n : ℕ} (h : findFrom d cwd n dir = some file) :
    ∃ k level, level? k dir = some level ∧ first? d cwd level = some file ∧
      ∀ m < k, ∀ below, level? m dir = some below → first? d cwd below = none := by
  induction n generalizing dir with
  | zero =>
    rw [findFrom_zero] at h
    simp at h
  | succ n ih =>
    rw [findFrom_succ] at h
    cases hfirst : first? d cwd dir with
    | some file' =>
      rw [hfirst] at h
      exact ⟨0, dir, rfl, hfirst.trans h, by simp⟩
    | none =>
      rw [hfirst] at h
      obtain ⟨above, hparent, h⟩ := Option.bind_eq_some_iff.mp h
      obtain ⟨k, level, hlevel, hfile, hbelow⟩ := ih h
      refine ⟨k + 1, level, by rw [level?, hparent, Option.bind_some, hlevel], hfile, ?_⟩
      intro m hm below hbelow'
      cases m with
      | zero => exact Option.some.inj hbelow' ▸ hfirst
      | succ m =>
        rw [level?, hparent, Option.bind_some] at hbelow'
        exact hbelow m (by omega) below hbelow'

/-- If the search has steps enough and finds nothing, there is nothing at any level. -/
theorem first?_of_findFrom_eq_none {n : ℕ} (hn : dir.text.length < n)
    (h : findFrom d cwd n dir = none) {m : ℕ} (hm : level? m dir = some level) :
    first? d cwd level = none := by
  induction n generalizing dir m with
  | zero => omega
  | succ n ih =>
    rw [findFrom_succ] at h
    cases hfirst : first? d cwd dir with
    | some file => simp [hfirst] at h
    | none =>
      rw [hfirst] at h
      cases m with
      | zero => exact Option.some.inj hm ▸ hfirst
      | succ m =>
        obtain ⟨above, hparent, hm⟩ := Option.bind_eq_some_iff.mp hm
        rw [hparent, Option.bind_some] at h
        -- the path above is shorter, so a step less is enough for it
        have hlen : above.text.length < dir.text.length := Path.length_parent? hparent
        exact ih (by omega) h hm

theorem exists_isIn_iff : (∃ s file, IsIn d cwd level s file) ↔ first? d cwd level ≠ none := by
  rw [ne_eq, first?_eq_none_iff]
  simp only [not_forall, not_not]

theorem isCandidate_iff {n : ℕ} {s : Spot} (hlevel : level? n dir = some level) :
    IsCandidate d cwd dir n s file ↔ IsIn d cwd level s file := by
  constructor
  · rintro ⟨level', hlevel', hs⟩
    rw [hlevel, Option.some.injEq] at hlevel'
    exact hlevel' ▸ hs
  · exact fun hs => ⟨level, hlevel, hs⟩

theorem find?_eq_none_iff :
    find? d cwd dir = none ↔ ∀ n s file, ¬ IsCandidate d cwd dir n s file := by
  constructor
  · rintro h n s file ⟨level, hlevel, hs⟩
    have hnone := first?_of_findFrom_eq_none (Nat.lt_succ_self _) h hlevel
    exact first?_eq_none_iff.mp hnone s file hs
  · intro h
    cases hfind : find? d cwd dir with
    | none => rfl
    | some file =>
      obtain ⟨k, level, hlevel, hfile, -⟩ := exists_level_of_findFrom hfind
      obtain ⟨s, hs, -⟩ := first?_eq_some_iff.mp hfile
      exact absurd ⟨level, hlevel, hs⟩ (h k s file)

theorem IsNearest.exists_first? (h : IsNearest d cwd dir level) :
    ∃ file, first? d cwd level = some file := by
  obtain ⟨n, -, hfile, -⟩ := h
  exact Option.ne_none_iff_exists'.mp (exists_isIn_iff.mp hfile)

/-- **The search takes the first file of the nearest level** with one. -/
theorem find?_eq_some_iff :
    find? d cwd dir = some file ↔
      ∃ level, IsNearest d cwd dir level ∧ first? d cwd level = some file := by
  constructor
  · intro h
    obtain ⟨k, level, hlevel, hfile, hbelow⟩ := exists_level_of_findFrom h
    refine ⟨level, ⟨k, hlevel, exists_isIn_iff.mpr (by simp [hfile]), ?_⟩, hfile⟩
    rintro m hm s other ⟨below, hbelow', hs⟩
    exact first?_eq_none_iff.mp (hbelow m hm below hbelow') s other hs
  · rintro ⟨level, ⟨n, hlevel, ⟨s, other, hs⟩, hbelow⟩, hfile⟩
    cases hfind : find? d cwd dir with
    | none => exact absurd ⟨level, hlevel, hs⟩ (find?_eq_none_iff.mp hfind n s other)
    | some file' =>
      obtain ⟨k, level', hlevel', hfile', hbelow'⟩ := exists_level_of_findFrom hfind
      -- neither of the two levels is below the other
      obtain ⟨t, ht, -⟩ := first?_eq_some_iff.mp hfile'
      have hkn : ¬ k < n := fun hlt => hbelow k hlt t file' ⟨level', hlevel', ht⟩
      have hnk : ¬ n < k := fun hlt => by
        rw [hbelow' n hlt level hlevel] at hfile
        simp at hfile
      obtain rfl : n = k := by omega
      obtain rfl : level = level' := Option.some.inj (hlevel.symm.trans hlevel')
      exact hfile'.symm.trans hfile

/-- **What is found is the least candidate:** of the nearest level, and there first in the order
of preference. -/
theorem find?_eq_some_iff_least :
    find? d cwd dir = some file ↔
      ∃ n s, IsCandidate d cwd dir n s file ∧ ∀ m t other, IsCandidate d cwd dir m t other →
        n < m ∨ n = m ∧ (s = t ∨ s.Before t) := by
  rw [find?_eq_some_iff]
  constructor
  · rintro ⟨level, ⟨n, hlevel, -, hbelow⟩, hfile⟩
    obtain ⟨s, hs, hleast⟩ := first?_eq_some_iff.mp hfile
    refine ⟨n, s, ⟨level, hlevel, hs⟩, fun m t other ht => ?_⟩
    rcases Nat.lt_trichotomy n m with hlt | rfl | hgt
    · exact .inl hlt
    · exact .inr ⟨rfl, hleast t other ((isCandidate_iff hlevel).mp ht)⟩
    · exact absurd ht (hbelow m hgt t other)
  · rintro ⟨n, s, ⟨level, hlevel, hs⟩, hleast⟩
    refine ⟨level, ⟨n, hlevel, ⟨s, file, hs⟩, fun m hm t other ht => ?_⟩, ?_⟩
    · rcases hleast m t other ht with hlt | ⟨heq, -⟩ <;> omega
    · refine first?_eq_some_iff.mpr ⟨s, hs, fun t other ht => ?_⟩
      rcases hleast n t other ⟨level, hlevel, ht⟩ with hlt | ⟨-, hst⟩
      · exact absurd hlt (Nat.lt_irrefl n)
      · exact hst

theorem find?_of_sameTree (h : d.SameTree d') : find? d' cwd dir = find? d cwd dir := by
  refine Option.ext fun file => ?_
  rw [find?_eq_some_iff_least, find?_eq_some_iff_least]
  simp only [IsCandidate, isIn_congr h]

end

end SuiteGate.Config
