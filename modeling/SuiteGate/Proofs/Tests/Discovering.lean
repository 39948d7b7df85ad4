import SuiteGate.Proofs.Glob.Searching
import SuiteGate.Tests.Discovery
/-!
# Which tests are found

In a tree of directories and regular files the tests of a directory are those of the directories
in it and then those in itself, in the order of their names, each of them once (`IsListing`):
`discover_spec`.  This holds whatever characters the path of the directory has, and however it is
spelled, but for one spelling: from a path that starts with `.` and goes on with a doubled
separator, or ends in one, nothing is found (`testsUnder_of_startsDoubled`).

The search comes to the directory by its path (`Glob.exists_base_of_isDir`) and goes through the
names there; those that match the pattern and are then included are the tests (`isTest_iff`).
-/

namespace SuiteGate.Tests

open Shell (Pattern)
open Glob (exactly searchFrom entryPath IsBase StartsEmpty)

/-- A name is that of a test which is not left out. -/
structure IsTest (exclude : List String) (x : Name) : Prop where
  pre : "test_".toList <+: x.text.toList
  ending : ".py".toList <:+ x.text.toList
  not_excluded : x.text ∉ exclude

/-- The tests one level below a place, each with the name of its directory, and those directly at
the place. -/
structure Contents (d : Disk) (exclude : List String) (place : List Name)
    (nested : List (Name × Name)) (direct : List Name) : Prop where
  nested_iff : ∀ s x, (s, x) ∈ nested ↔ d.get? (place ++ [s, x]) ≠ none ∧ IsTest exclude x
  direct_iff : ∀ x, x ∈ direct ↔ d.get? (place ++ [x]) ≠ none ∧ IsTest exclude x
  nested_ordered : nested.Pairwise fun a b =>
    a.1.text < b.1.text ∨ a.1 = b.1 ∧ a.2.text < b.2.text
  direct_ordered : direct.Pairwise fun x y => x.text < y.text

/-- Some paths lead, one after the other, to the tests one level below a place and then to those
directly there. -/
def IsListing (d : Disk) (cwd : List Name) (exclude : List String) (place : List Name)
    (files : List Path) : Prop :=
  ∃ nested direct, Contents d exclude place nested direct ∧
    List.Forall₂ (fun file target => ∃ n, d.locate cwd file true = .ok (target, n)) files
      ((nested.map fun a => place ++ [a.1, a.2]) ++ direct.map fun x => place ++ [x])

/-! ### Names of tests -/

/-- What the names of tests match. -/
def testNames : Pattern :=
  exactly "test_".toList ++ .anyText :: exactly ".py".toList

theorem matches?_testNames_iff {cs : List Char} :
    testNames.matches? cs = true ↔ ∃ mid, cs = "test_".toList ++ mid ++ ".py".toList := by
  rw [testNames, Glob.matches?_exactly_append_iff]
  simp only [Shell.Pattern.matches?_anyText_iff, Glob.matches?_exactly_iff]
  constructor
  · rintro ⟨rest, rfl, ending, ⟨mid, rfl⟩, rfl⟩
    exact ⟨mid, by rw [List.append_assoc]⟩
  · rintro ⟨mid, rfl⟩
    exact ⟨mid ++ ".py".toList, by rw [List.append_assoc], _, List.suffix_append _ _, rfl⟩

/-- What starts and what ends a test's name do not overlap. -/
theorem exists_middle {cs : List Char} (hpre : "test_".toList <+: cs) (hend : ".py".toList <:+ cs) :
    ∃ mid, cs = "test_".toList ++ mid ++ ".py".toList := by
  obtain ⟨rest, rfl⟩ := hpre
  rcases List.suffix_or_suffix_of_suffix hend (List.suffix_append _ rest) with h | h
  · obtain ⟨mid, rfl⟩ := h
    exact ⟨mid, by rw [List.append_assoc]⟩
  · have hrest : rest = ".py".toList ∨ rest = "py".toList ∨ rest = "y".toList ∨ rest = [] := by
      simpa [List.suffix_cons_iff] using h
    rcases hrest with rfl | rfl | rfl | rfl
    · exact ⟨[], rfl⟩
    · exact absurd hend (by decide)
    · exact absurd hend (by decide)
    · exact absurd hend (by decide)

section

variable {d : Disk} {cwd place : List Name} {exclude : List String} {root p base : Path}
  {n m : Node} {x : Name}

theorem fileName?_entryPath (hbase : IsBase base) (x : Name) :
    (entryPath base x.text).fileName? = some x.text := by
  have hrel := Path.isAbsolute_name x
  obtain ⟨cs, hcs⟩ : ∃ cs, Path.componentsIn (entryPath base x.text).text.toList =
      cs ++ [.normal x.text] := by
    rcases hbase with hbase | rfl
    · rw [hbase.entryPath_eq, Path.componentsIn_join hrel, Path.componentsIn_name]
      exact ⟨_, rfl⟩
    · rw [Glob.entryPath_current, Path.componentsIn_name]
      exact ⟨[], rfl⟩
  exact Path.fileName?_of_componentsIn hcs

/-- **The tests** are the entries that match the pattern and are then included. -/
theorem isTest_iff (hbase : IsBase base) :
    IsTest exclude x ↔ testNames.matches? x.text.toList = true ∧
      isIncluded exclude (entryPath base x.text) = true := by
  have hname : ("test_".toList <+: x.text.toList ∧ ".py".toList <:+ x.text.toList) ↔
      testNames.matches? x.text.toList = true := by
    rw [matches?_testNames_iff]
    constructor
    · exact fun h => exists_middle h.1 h.2
    · rintro ⟨mid, hmid⟩
      rw [hmid, List.append_assoc]
      exact ⟨List.prefix_append _ _, List.append_assoc .. ▸ List.suffix_append _ _⟩
  have hincluded : testNames.matches? x.text.toList = true →
      (isIncluded exclude (entryPath base x.text) = true ↔ x.text ∉ exclude) := by
    intro h
    obtain ⟨mid, hmid⟩ := matches?_testNames_iff.mp h
    have hext : Path.extensionOf? x.text = some "py" :=
      Path.extensionOf?_eq (a := "test_".toList ++ mid) hmid (by simp) (by decide)
    have hstart : Text.startsWith x.text "test_" = true :=
      List.isPrefixOf_iff_prefix.mpr (hname.mpr h).1
    rw [isIncluded, Path.extension?, fileName?_entryPath hbase, Option.bind_some, hext]
    simp [hstart]
  constructor
  · intro h
    have hmatches := hname.mp ⟨h.pre, h.ending⟩
    exact ⟨hmatches, (hincluded hmatches).mpr h.not_excluded⟩
  · rintro ⟨hmatches, h⟩
    exact ⟨(hname.mpr hmatches).1, (hname.mpr hmatches).2, (hincluded hmatches).mp h⟩

instance : Decidable (IsTest exclude x) :=
  decidable_of_iff ("test_".toList <+: x.text.toList ∧ ".py".toList <:+ x.text.toList ∧
    x.text ∉ exclude) ⟨fun h => ⟨h.1, h.2.1, h.2.2⟩, fun h => ⟨h.pre, h.ending, h.not_excluded⟩⟩

/-! ### One directory -/

/-- The names of the tests directly at a place, in their order. -/
def testsAtPlace (d : Disk) (exclude : List String) (place : List Name) : List Name :=
  (d.namesAt place).filter (IsTest exclude ·)

/-- **A search for the names of tests** finds those directly in the directory. -/
theorem searchFrom_testNames (hd : d.Plain) (hbase : IsBase base)
    (hp : d.locate cwd base true = .ok (place, n)) :
    (searchFrom d cwd [testNames] base).filter (isIncluded exclude) =
      (testsAtPlace d exclude place).map fun x => entryPath base x.text := by
  have hsearch : searchFrom d cwd [testNames] base =
      ((d.namesAt place).filter fun x => testNames.matches? x.text.toList).map
        fun x => entryPath base x.text := by
    rw [searchFrom, Glob.sortedNames_eq hd hp]
    exact List.flatMap_pure_eq_map ..
  rw [hsearch, List.filter_map, List.filter_filter, testsAtPlace]
  congr 1
  refine List.filter_congr fun x _ => ?_
  rw [Bool.eq_iff_iff, decide_eq_true_iff, isTest_iff hbase]
  simp [and_comm]

/-- **A search one level down** finds those in the directories in the directory. -/
theorem searchFrom_anyText_testNames (hd : d.Plain) (hbase : IsBase base)
    (hp : d.locate cwd base true = .ok (place, n)) :
    (searchFrom d cwd [[.anyText], testNames] base).filter (isIncluded exclude) =
      (d.namesAt place).flatMap fun s => (testsAtPlace d exclude (place ++ [s])).map fun x =>
        entryPath (entryPath base s.text) x.text := by
  have hall : ∀ cs : List Char, Pattern.matches? [.anyText] cs = true := fun cs =>
    Shell.Pattern.matches?_anyText_iff.mpr
      ⟨[], List.nil_suffix, Shell.Pattern.matches?_nil_iff.mpr rfl⟩
  have hsearch : searchFrom d cwd [[.anyText], testNames] base =
      (d.namesAt place).flatMap fun s => searchFrom d cwd [testNames] (entryPath base s.text) := by
    rw [searchFrom, Glob.sortedNames_eq hd hp]
    simp [Glob.plainText?, hall]
  rw [hsearch, List.filter_flatMap]
  refine List.flatMap_congr fun s hs => ?_
  obtain ⟨m, hm⟩ := Option.ne_none_iff_exists'.mp (Disk.mem_namesAt_iff.mp hs)
  exact searchFrom_testNames hd (.inl (hbase.named_entryPath s))
    (Glob.locate_entryPath_name hd hbase hp hm)

/-- The tests one level below a place, with the names of their directories, in their order. -/
def testsBelow (d : Disk) (exclude : List String) (place : List Name) : List (Name × Name) :=
  (d.namesAt place).flatMap fun s => (testsAtPlace d exclude (place ++ [s])).map (s, ·)

theorem pairwise_testsAtPlace :
    (testsAtPlace d exclude place).Pairwise fun x y => x.text < y.text :=
  Disk.pairwise_namesAt.filter _

theorem mem_testsAtPlace_iff :
    x ∈ testsAtPlace d exclude place ↔ d.get? (place ++ [x]) ≠ none ∧ IsTest exclude x := by
  rw [testsAtPlace, List.mem_filter, Disk.mem_namesAt_iff, decide_eq_true_iff]

/-- **What is found in a directory** are all tests there, in their order. -/
theorem contents (d : Disk) (exclude : List String) (place : List Name) :
    Contents d exclude place (testsBelow d exclude place) (testsAtPlace d exclude place) where
  direct_iff x := mem_testsAtPlace_iff
  direct_ordered := pairwise_testsAtPlace
  nested_iff s x := by
    have hassoc : place ++ [s] ++ [x] = place ++ [s, x] := List.append_assoc ..
    simp only [testsBelow, List.mem_flatMap, List.mem_map, Prod.mk.injEq, Disk.mem_namesAt_iff]
    constructor
    · rintro ⟨s', -, x', hx, rfl, rfl⟩
      rwa [mem_testsAtPlace_iff, hassoc] at hx
    · intro h
      refine ⟨s, ?_, x, by rwa [mem_testsAtPlace_iff, hassoc], rfl, rfl⟩
      obtain ⟨n, hn⟩ := Option.ne_none_iff_exists'.mp h.1
      rw [← hassoc] at hn
      obtain ⟨m, hm, -⟩ := Node.isDir_of_get?_append hn
      exact Option.ne_none_iff_exists'.mpr ⟨m, hm⟩
  nested_ordered := by
    rw [testsBelow, List.pairwise_flatMap]
    constructor
    · intro s _
      rw [List.pairwise_map]
      exact pairwise_testsAtPlace.imp fun h => .inr ⟨rfl, h⟩
    · refine Disk.pairwise_namesAt.imp fun {s t} hst a ha b hb => ?_
      obtain ⟨x, -, rfl⟩ := List.mem_map.mp ha
      obtain ⟨y, -, rfl⟩ := List.mem_map.mp hb
      exact .inl hst

/-! ### A given path -/

/-- A path starts with `.` and goes on with a doubled separator, or ends in one. -/
def StartsDoubled (p : Path) : Prop :=
  p.isAbsolute = false ∧ StartsEmpty p.segments

instance : Decidable (StartsDoubled p) :=
  inferInstanceAs (Decidable (_ ∧ _))

theorem testsUnder_eq (hp : p.text.isEmpty = false) :
    testsUnder d cwd exclude p =
      (searchFrom d cwd (p.segments.map exactly ++ [[.anyText], testNames]) (Glob.start p)).filter
          (isIncluded exclude) ++
        (searchFrom d cwd (p.segments.map exactly ++ [testNames]) (Glob.start p)).filter
          (isIncluded exclude) := by
  have hpatterns : patternsOf p =
      [⟨String.ofList (Glob.escape p.text.toList ++ '/' :: "*/test_*.py".toList)⟩,
        ⟨String.ofList (Glob.escape p.text.toList ++ '/' :: "test_*.py".toList)⟩] := by
    rw [String.ofList_append, String.ofList_append]
    rfl
  have hnested : Glob.search? d cwd
      ⟨String.ofList (Glob.escape p.text.toList ++ '/' :: "*/test_*.py".toList)⟩ =
        some (searchFrom d cwd (p.segments.map exactly ++ [[.anyText], testNames])
          (Glob.start p)) :=
    Glob.search?_escape hp (by decide) (by decide)
  have hdirect : Glob.search? d cwd
      ⟨String.ofList (Glob.escape p.text.toList ++ '/' :: "test_*.py".toList)⟩ =
        some (searchFrom d cwd (p.segments.map exactly ++ [testNames]) (Glob.start p)) :=
    Glob.search?_escape hp (by decide) (by decide)
  rw [testsUnder, hpatterns, List.flatMap_cons, List.flatMap_singleton, hnested, hdirect]
  rfl

/-- **The tests of a directory** are listed. -/
theorem isListing_testsUnder (hd : d.Plain) (hp : d.locate cwd p true = .ok (place, n))
    (hn : n.isDir = true) (hready : ¬ StartsDoubled p) :
    IsListing d cwd exclude place (testsUnder d cwd exclude p) := by
  obtain ⟨hfol, -⟩ := Disk.locate_eq_ok_iff.mp hp
  have hstart : p.isAbsolute = true ∨ ¬ StartsEmpty p.segments := by
    rwa [StartsDoubled, ← Bool.not_eq_true, not_and_or, not_not] at hready
  obtain ⟨base, hbase, hloc, hsearch⟩ := Glob.exists_base_of_isDir hd hp hn hstart
  have hfiles : testsUnder d cwd exclude p =
      (testsBelow d exclude place).map (fun a => entryPath (entryPath base a.1.text) a.2.text) ++
        (testsAtPlace d exclude place).map fun x => entryPath base x.text := by
    rw [testsUnder_eq hfol.notEmpty, hsearch, hsearch, searchFrom_testNames hd hbase hloc,
      searchFrom_anyText_testNames hd hbase hloc, testsBelow, List.map_flatMap]
    simp only [List.map_map]
    rfl
  have hcontents := contents d exclude place
  refine ⟨_, _, hcontents, ?_⟩
  rw [hfiles]
  refine List.rel_append ?_ ?_
  · rw [List.forall₂_map_left_iff, List.forall₂_map_right_iff, List.forall₂_same]
    rintro ⟨s, x⟩ hmem
    have hassoc : place ++ [s] ++ [x] = place ++ [s, x] := List.append_assoc ..
    obtain ⟨n, hget⟩ := Option.ne_none_iff_exists'.mp ((hcontents.nested_iff s x).mp hmem).1
    rw [← hassoc] at hget ⊢
    obtain ⟨m, hm, -⟩ := Node.isDir_of_get?_append hget
    exact ⟨n, Glob.locate_entryPath_name hd (.inl (hbase.named_entryPath s))
      (Glob.locate_entryPath_name hd hbase hloc hm) hget⟩
  · rw [List.forall₂_map_left_iff, List.forall₂_map_right_iff, List.forall₂_same]
    intro x hmem
    obtain ⟨n, hget⟩ := Option.ne_none_iff_exists'.mp ((hcontents.direct_iff x).mp hmem).1
    exact ⟨n, Glob.locate_entryPath_name hd hbase hloc hget⟩

/-- Nothing is found from a path that goes on with a doubled separator. -/
theorem testsUnder_of_startsDoubled (hp : p.text.isEmpty = false) (h : StartsDoubled p) :
    testsUnder d cwd exclude p = [] := by
  have hstart : Glob.start p = ⟨"."⟩ := by rw [Glob.start, h.1, if_neg Bool.false_ne_true]
  rw [testsUnder_eq hp, hstart, Glob.searchFrom_of_startsEmpty h.2,
    Glob.searchFrom_of_startsEmpty h.2]
  rfl

theorem discover_singleton :
    discover d cwd root [p] exclude = testsAt d cwd root exclude p := by
  rw [discover, List.isEmpty_cons, if_neg Bool.false_ne_true, List.flatMap_singleton]

/-- **What is found** for some paths is what is found for each of them, and for no paths what is
found for the root.  A path to a file stands for that file.  A path to a directory, tried as it is
and then inside the root, stands for the tests in the directories there and then for those in
itself, but if it starts with `.` and goes on with a doubled separator, for nothing. -/
theorem discover_spec (hd : d.Plain) (cwd : List Name) (root : Path) (paths : List Path)
    (exclude : List String) :
    (discover d cwd root paths exclude =
      (if paths.isEmpty then [root] else paths).flatMap
        fun p => discover d cwd root [p] exclude) ∧
    ∀ p, (d.isFile cwd (chosen d cwd root p) = true →
        discover d cwd root [p] exclude = [chosen d cwd root p]) ∧
      ∀ place n, d.locate cwd (chosen d cwd root p) true = .ok (place, n) → n.isDir = true →
        (StartsDoubled (chosen d cwd root p) → discover d cwd root [p] exclude = []) ∧
        (¬ StartsDoubled (chosen d cwd root p) →
          IsListing d cwd exclude place (discover d cwd root [p] exclude)) := by
  simp only [discover_singleton]
  refine ⟨rfl, fun p => ⟨fun hfile => ?_, fun place n hp hn => ?_⟩⟩
  · rw [testsAt]
    exact if_pos hfile
  · have hfile : ¬ d.isFile cwd (chosen d cwd root p) = true := by
      rw [Disk.isFile, Disk.stat, hp]
      cases n with
      | dir l es => simp [bind, Except.bind, pure, Except.pure, Node.isFile]
      | file data => simp [Node.isDir] at hn
      | link target => simp [Node.isDir] at hn
    have htests : testsAt d cwd root exclude p =
        testsUnder d cwd exclude (chosen d cwd root p) := by
      rw [testsAt]
      exact if_neg hfile
    obtain ⟨hfol, -⟩ := Disk.locate_eq_ok_iff.mp hp
    rw [htests]
    exact ⟨testsUnder_of_startsDoubled hfol.notEmpty, isListing_testsUnder hd hp hn⟩

end

/-! ### A small tree -/

/-- The name of a test. -/
def smallTest : Name := ⟨"test_a.py", by decide⟩

/-- The name of a directory with tests. -/
def smallDir : Name := ⟨"sub", by decide⟩

/-- The names of two more files, one of them that of a test. -/
def smallNotes : Name := ⟨"notes.py", by decide⟩

def laterTest : Name := ⟨"test_z.py", by decide⟩

def emptyFile : Node := .file ⟨.empty, ⟨0⟩, false⟩

/-- A tree with tests in its root, in a directory there and deeper, and other files besides. -/
def smallTree : Disk where
  root := .dir .full
    [(laterTest, emptyFile), (smallTest, emptyFile), (smallNotes, emptyFile),
      (smallDir, .dir .full
        [(⟨"test_skip.py", by decide⟩, emptyFile), (⟨"test_b.py", by decide⟩, emptyFile),
          (⟨"test_b.txt", by decide⟩, emptyFile),
          (⟨"deeper", by decide⟩, .dir .full [(⟨"test_c.py", by decide⟩, emptyFile)])])]
  isDir_root := rfl
  distinct := by simp [Node.Distinct, Node.DistinctEntries, emptyFile, laterTest, smallTest,
    smallNotes, smallDir]
  clock := ⟨0⟩

theorem smallTree_plain : smallTree.Plain :=
  Disk.plain_of_all_walk (p := ⟨"/"⟩) (by decide +kernel)

/-- The names in the root and in what stands there, in their order. -/
theorem namesAt_smallTree :
    smallTree.namesAt [] = [smallNotes, smallDir, smallTest, laterTest] ∧
      smallTree.namesAt [smallDir] = [⟨"deeper", by decide⟩, ⟨"test_b.py", by decide⟩,
        ⟨"test_b.txt", by decide⟩, ⟨"test_skip.py", by decide⟩] ∧
      ∀ x ∈ [smallNotes, smallTest, laterTest], smallTree.namesAt [x] = [] := by
  refine ⟨Disk.namesAt_eq_of_perm (by decide +kernel) (by decide +kernel),
    Disk.namesAt_eq_of_perm (by decide +kernel) (by decide +kernel), fun x hx => ?_⟩
  have hempty : ∀ x ∈ [smallNotes, smallTest, laterTest],
      (((smallTree.get? [x]).elim [] Node.entries).map (·.1)).Perm [] := by decide +kernel
  exact Disk.namesAt_eq_of_perm (hempty x hx) .nil

theorem locate_smallTree : smallTree.locate [] ⟨"."⟩ true = .ok ([], smallTree.root) :=
  Disk.locate_eq_ok_iff.mpr
    ⟨⟨by decide, by decide, Disk.dirAt_nil _⟩, by decide +kernel, rfl, by decide +kernel⟩

theorem chosen_smallTree : chosen smallTree [] ⟨"."⟩ ⟨"."⟩ = ⟨"."⟩ := by
  decide +kernel

/-- The test in the directory is found, and then those in the root, but neither the name that is
left out nor what lies deeper. -/
theorem discover_smallTree : discover smallTree [] ⟨"."⟩ [⟨"."⟩] ["test_skip.py"] =
    [⟨"sub/test_b.py"⟩, ⟨"test_a.py"⟩, ⟨"test_z.py"⟩] := by
  obtain ⟨hroot, hsub, hleaf⟩ := namesAt_smallTree
  have hhere := locate_smallTree
  have hdot : ∀ more, searchFrom smallTree [] (exactly ['.'] :: more) ⟨"."⟩ =
      searchFrom smallTree [] more ⟨"."⟩ := fun more => by
    have hisDir : smallTree.isDir [] ⟨"."⟩ = true := by decide +kernel
    have hentry : entryPath ⟨"."⟩ (String.ofList ['.']) = ⟨"."⟩ := by decide
    rw [Glob.searchFrom_plain_cons (by decide), hentry]
    simp only [decide_true, Bool.true_or, if_true, hisDir]
  have hsegments : (⟨"."⟩ : Path).segments.map exactly = [exactly ['.']] := by decide
  have hstart : Glob.start ⟨"."⟩ = ⟨"."⟩ := by decide
  have hfile : ¬ smallTree.isFile [] ⟨"."⟩ = true := by decide +kernel
  have htests : testsAt smallTree [] ⟨"."⟩ ["test_skip.py"] ⟨"."⟩ =
      testsUnder smallTree [] ["test_skip.py"] ⟨"."⟩ := by
    rw [testsAt, chosen_smallTree]
    exact if_neg hfile
  rw [discover_singleton, htests, testsUnder_eq (by decide), hsegments, List.singleton_append,
    List.singleton_append, hstart, hdot, hdot, searchFrom_testNames smallTree_plain (.inr rfl) hhere,
    searchFrom_anyText_testNames smallTree_plain (.inr rfl) hhere]
  simp only [testsAtPlace, hroot, List.nil_append, List.flatMap_cons, List.flatMap_nil, hsub,
    hleaf smallNotes (by simp), hleaf smallTest (by simp), hleaf laterTest (by simp)]
  decide +kernel

theorem discover_spec_small :
    smallTree.Plain ∧
      IsListing smallTree [] ["test_skip.py"] []
        (discover smallTree [] ⟨"."⟩ [⟨"."⟩] ["test_skip.py"]) ∧
      discover smallTree [] ⟨"."⟩ [⟨"."⟩] ["test_skip.py"] =
        [⟨"sub/test_b.py"⟩, ⟨"test_a.py"⟩, ⟨"test_z.py"⟩] := by
  have hdir : smallTree.root.isDir = true := by decide +kernel
  have hspec := (discover_spec smallTree_plain [] ⟨"."⟩ [] ["test_skip.py"]).2 ⟨"."⟩
  rw [chosen_smallTree] at hspec
  exact ⟨smallTree_plain, (hspec.2 [] smallTree.root locate_smallTree hdir).2 (by decide),
    discover_smallTree⟩

/-- **A path that is lost:** the current directory has a test, and with a separator behind it is
still the current directory, but there nothing is found. -/
theorem discover_current_slash :
    smallTree.isDir [] ⟨"./"⟩ = true ∧ smallTree.get? [smallTest] ≠ none ∧ IsTest [] smallTest ∧
      discover smallTree [] ⟨"./"⟩ [] [] = [] := by
  have hthere : (smallTree.get? [smallTest]).isSome = true := by decide +kernel
  exact ⟨by decide +kernel, Option.isSome_iff_ne_none.mp hthere, by decide, by decide +kernel⟩

end SuiteGate.Tests
