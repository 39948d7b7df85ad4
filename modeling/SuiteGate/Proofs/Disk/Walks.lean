import SuiteGate.Disk.Walk
import SuiteGate.Proofs.Disk.Lookups
/-!
# What walks come by

What is reached from a path is what it leads to and what the listable directories below hold
(`Disk.Reaches`); no link below is followed.  This does not mention the order of entries.  The
headlines are `mem_walk_iff`, that the walk of a node lists exactly this, and `Reaches.of_within`,
that nothing new is reached after things were removed.

As to the order, a walk comes by a directory before its entries (`Node.walk_nested`).
-/

namespace SuiteGate

namespace Path

/-- The path of what stands below a path at the end of some names. -/
def below (p : Path) (names : List Name) : Path :=
  names.foldl (fun q x => q.child x.text) p

theorem mem_toList_below {p : Path} {names : List Name} {c : Char} (hc : c ≠ '/') :
    c ∈ (p.below names).text.toList ↔ c ∈ p.text.toList ∨ ∃ x ∈ names, c ∈ x.text.toList := by
  induction names generalizing p with
  | nil => simp [below]
  | cons x names ih =>
    have hbelow : p.below (x :: names) = (p.child x.text).below names := rfl
    rw [hbelow, ih, mem_toList_child hc, List.exists_mem_cons_iff, or_assoc]

end Path

namespace Node

/-- What a node holds: itself, and what is held by the entries of a directory that can be
listed. -/
inductive Holds : Node → List Name → Node → Prop
  | self (n : Node) : Holds n [] n
  | entry {w : Bool} {es : List (Name × Node)} {x : Name} {c m : Node} {rel : List Name} :
    es.lookup x = some c → Holds c rel m → Holds (.dir ⟨true, w⟩ es) (x :: rel) m

theorem Holds.get? {n m : Node} {rel : List Name} (h : n.Holds rel m) : n.get? rel = some m := by
  induction h with
  | self n => exact get?_nil n
  | entry hx _ ih => rw [get?_cons, entries, hx, Option.bind_some, ih]

theorem holds_nil_iff {n m : Node} : n.Holds [] m ↔ n = m := by
  constructor
  · intro h
    cases h
    rfl
  · rintro rfl
    exact .self n

/-- What a walk lists of a node before its entries. -/
def itemsAt (path : Path) (names : List Name) : Node → Walk
  | .dir ⟨false, w⟩ es =>
    [.ok ⟨path, names, .dir ⟨false, w⟩ es⟩, .error ⟨path, .os .permissionDenied⟩]
  | n => [.ok ⟨path, names, n⟩]

theorem ok_mem_itemsAt {path : Path} {names : List Name} {n : Node} {item : WalkItem} :
    .ok item ∈ n.itemsAt path names ↔ item = ⟨path, names, n⟩ := by
  cases n with
  | dir l es => rcases l with ⟨- | -, w⟩ <;> simp [itemsAt]
  | file data => simp [itemsAt]
  | link target => simp [itemsAt]

/-- A node that holds nothing but itself is the only item of its walk. -/
theorem mem_itemsAt_iff_of_leaf {path : Path} {names : List Name}
    {i : Except WalkFault WalkItem} {n : Node}
    (hleaf : ∀ rel m, n.Holds rel m → rel = [] ∧ m = n) :
    i ∈ n.itemsAt path names ↔
      ∃ rel m, n.Holds rel m ∧ i ∈ m.itemsAt (path.below rel) (names ++ rel) := by
  constructor
  · exact fun hi => ⟨[], n, .self n, by simpa [Path.below] using hi⟩
  · rintro ⟨rel, m, hm, hi⟩
    obtain ⟨rfl, rfl⟩ := hleaf rel m hm
    simpa [Path.below] using hi

mutual

/-- **The walk of a node** lists exactly what the node holds. -/
theorem mem_walk_iff {path : Path} {names : List Name} {i : Except WalkFault WalkItem} :
    (n : Node) → n.Distinct → (i ∈ n.walk path names ↔
      ∃ rel m, n.Holds rel m ∧ i ∈ m.itemsAt (path.below rel) (names ++ rel))
  | .dir ⟨true, w⟩ es, h => by
    rw [walk, List.mem_cons, mem_walkEntries_iff es h]
    constructor
    · rintro (rfl | ⟨x, c, rel, m, hx, hm, hi⟩)
      · exact ⟨[], _, .self _, by simp [itemsAt, Path.below]⟩
      · exact ⟨x :: rel, m, .entry hx hm, hi⟩
    · rintro ⟨rel, m, hm, hi⟩
      cases hm with
      | self => exact .inl (by simpa [itemsAt, Path.below] using hi)
      | entry hx hc => exact .inr ⟨_, _, _, m, hx, hc, hi⟩
  | .dir ⟨false, w⟩ es, h => by
    refine mem_itemsAt_iff_of_leaf (n := .dir ⟨false, w⟩ es) fun rel m hm => ?_
    cases hm
    exact ⟨rfl, rfl⟩
  | .file data, h => by
    refine mem_itemsAt_iff_of_leaf (n := .file data) fun rel m hm => ?_
    cases hm
    exact ⟨rfl, rfl⟩
  | .link target, h => by
    refine mem_itemsAt_iff_of_leaf (n := .link target) fun rel m hm => ?_
    cases hm
    exact ⟨rfl, rfl⟩

theorem mem_walkEntries_iff {path : Path} {names : List Name} {i : Except WalkFault WalkItem} :
    (es : List (Name × Node)) → DistinctEntries es → (i ∈ walkEntries path names es ↔
      ∃ x c rel m, es.lookup x = some c ∧ c.Holds rel m ∧
        i ∈ m.itemsAt (path.below (x :: rel)) (names ++ x :: rel))
  | [], h => by simp [walkEntries]
  | (k, d) :: es, h => by
    obtain ⟨hk, hd, hes⟩ := h
    rw [walkEntries, List.mem_append, mem_walk_iff d hd, mem_walkEntries_iff es hes]
    constructor
    · rintro (⟨rel, m, hm, hi⟩ | ⟨x, c, rel, m, hx, hm, hi⟩)
      · refine ⟨k, d, rel, m, by rw [lookup_cons_eq, if_pos rfl], hm, ?_⟩
        rw [List.append_assoc] at hi
        exact hi
      · have hxk : x ≠ k := by
          rintro rfl
          rw [lookup_eq_none_of_not_mem hk] at hx
          simp at hx
        exact ⟨x, c, rel, m, by rw [lookup_cons_eq, if_neg hxk, hx], hm, hi⟩
    · rintro ⟨x, c, rel, m, hx, hm, hi⟩
      rw [lookup_cons_eq] at hx
      split at hx
      · next hxk =>
        subst hxk
        obtain rfl : d = c := by simpa using hx
        refine .inl ⟨rel, m, hm, ?_⟩
        rw [List.append_assoc]
        exact hi
      · exact .inr ⟨x, c, rel, m, hx, hm, hi⟩

end

mutual

/-- **A sorted walk** lists the same. -/
theorem mem_sortedWalk_iff {path : Path} {names : List Name} {i : Except WalkFault WalkItem} :
    (n : Node) → (i ∈ n.sortedWalk path names ↔ i ∈ n.walk path names)
  | .dir ⟨true, w⟩ es => by
    rw [sortedWalk, walk, List.mem_cons, List.mem_cons, mem_flatMap_mergeSort_iff es]
  | .dir ⟨false, w⟩ es => by rw [sortedWalk, walk]
  | .file data => by rw [sortedWalk, walk]
  | .link target => by rw [sortedWalk, walk]

theorem mem_flatMap_mergeSort_iff {path : Path} {names : List Name}
    {i : Except WalkFault WalkItem} :
    (es : List (Name × Node)) →
      (i ∈ ((entryWalks path names es).mergeSort fun a b => nameLe a.1 b.1).flatMap (·.2) ↔
        i ∈ walkEntries path names es)
  | [] => by simp [entryWalks, walkEntries]
  | (x, c) :: es => by
    have hrest : i ∈ ((entryWalks path names es).mergeSort fun a b => nameLe a.1 b.1).flatMap
      (·.2) ↔ i ∈ walkEntries path names es := mem_flatMap_mergeSort_iff es
    simp only [List.mem_flatMap, List.mem_mergeSort] at hrest ⊢
    rw [entryWalks, walkEntries, List.mem_append, List.exists_mem_cons_iff, hrest,
      mem_sortedWalk_iff c]

end

/-! ### All that a walk lists, and its order -/

/-- The walk of a directory goes by itself first. -/
theorem walk_dir (p : Path) (w : Bool) (es : List (Name × Node)) :
    (dir ⟨true, w⟩ es).walk p [] =
      [.ok ⟨p, [], .dir ⟨true, w⟩ es⟩] ++ walkEntries p [] es := by
  rw [walk]
  rfl

/-- What stands below a node is held by it, if all directories it holds can be listed. -/
theorem holds_of_get? {n m : Node} {rel : List Name}
    (hlisted : ∀ r w es, ¬ n.Holds r (.dir ⟨false, w⟩ es)) (h : n.get? rel = some m) :
    n.Holds rel m := by
  induction rel generalizing n with
  | nil =>
    rw [get?_nil, Option.some.injEq] at h
    exact h ▸ .self n
  | cons x rel ih =>
    rw [get?_cons, Option.bind_eq_some_iff] at h
    obtain ⟨c, hc, hm⟩ := h
    cases n with
    | file data | link target => simp [entries] at hc
    | dir l es =>
      rcases l with ⟨- | -, w⟩
      · exact absurd (.self _) (hlisted [] w es)
      · exact .entry hc (ih (fun r w' es' hr => hlisted (x :: r) w' es' (.entry hc hr)) hm)

/-- Whether what a walk lists passes a check; a fault does not. -/
def passes (P : List Name → Node → Bool) : Except WalkFault WalkItem → Bool
  | .ok item => P item.below item.node
  | .error _ => false

/-- What all that a walk lists passes, all that stands below a node passes. -/
theorem forall_of_all_walk {n : Node} (hn : n.Distinct) {path : Path}
    {P : List Name → Node → Bool} (h : (n.walk path []).all (passes P) = true)
    {rel : List Name} {m : Node} (hm : n.get? rel = some m) : P rel m = true := by
  have hall := List.all_eq_true.mp h
  have hholds : n.Holds rel m := holds_of_get? (fun r w es hr => by
    have hfault := hall (.error ⟨path.below r, .os .permissionDenied⟩)
      ((mem_walk_iff n hn).mpr ⟨r, _, hr, by simp [itemsAt]⟩)
    cases hfault) hm
  exact hall (.ok ⟨path.below rel, rel, m⟩)
    ((mem_walk_iff n hn).mpr ⟨rel, m, hholds, ok_mem_itemsAt.mpr (by rw [List.nil_append])⟩)

/-- A walk without faults comes by no directory that cannot be listed. -/
theorem not_holds_of_walk {n : Node} (hn : n.Distinct) {path : Path} {names : List Name}
    (h : ∀ fault, .error fault ∉ n.walk path names) (rel : List Name) (w : Bool)
    (es : List (Name × Node)) : ¬ n.Holds rel (.dir ⟨false, w⟩ es) := fun hholds =>
  h ⟨path.below rel, .os .permissionDenied⟩
    ((mem_walk_iff n hn).mpr ⟨rel, _, hholds, by simp [itemsAt]⟩)

end Node

/-- What a walk came by, without what it could not read. -/
def Walk.items (w : Walk) : List WalkItem :=
  w.filterMap Except.toOption

theorem Walk.mem_items_iff {w : Walk} {item : WalkItem} : item ∈ w.items ↔ .ok item ∈ w := by
  rw [items, List.mem_filterMap]
  constructor
  · rintro ⟨i, hi, hitem⟩
    cases i with
    | error fault => cases hitem
    | ok other => exact Option.some.inj hitem ▸ hi
  · exact fun h => ⟨.ok item, h, rfl⟩

/-- A walk lists a directory at the end of some names. -/
def Walk.ListsDir (w : Walk) (names : List Name) : Prop :=
  ∃ item, .ok item ∈ w ∧ item.below = names ∧ item.node.isDir = true

theorem Walk.ListsDir.mono {w w' : Walk} {names : List Name} (h : w.ListsDir names)
    (hw : w ⊆ w') : Walk.ListsDir w' names := by
  obtain ⟨item, hitem, hbelow, hdir⟩ := h
  exact ⟨item, hw hitem, hbelow, hdir⟩

namespace Node

mutual

/-- The number of entries at or below a node that are not directories. -/
def leaves : Node → ℕ
  | .file _ => 1
  | .link _ => 1
  | .dir _ es => leavesOfEntries es

/-- The number of entries at or below those of a list that are not directories. -/
def leavesOfEntries : List (Name × Node) → ℕ
  | [] => 0
  | (_, c) :: es => c.leaves + leavesOfEntries es

end

/-- Whether what a walk lists is not a directory. -/
def isLeafItem : Except WalkFault WalkItem → Bool
  | .ok item => !item.node.isDir
  | .error _ => false

mutual

/-- **A walk without faults** lists everything that is not a directory. -/
theorem countP_walk {path : Path} {names : List Name} :
    (n : Node) → (∀ fault, .error fault ∉ n.walk path names) →
      (n.walk path names).countP isLeafItem = n.leaves
  | .file data, _ => by simp [walk, leaves, isLeafItem, isDir]
  | .link target, _ => by simp [walk, leaves, isLeafItem, isDir]
  | .dir ⟨false, w⟩ es, h => by simp [walk] at h
  | .dir ⟨true, w⟩ es, h => by
    rw [walk] at h ⊢
    have hentries := countP_walkEntries es fun fault hf =>
      h fault (List.mem_cons_of_mem _ hf)
    rw [List.countP_cons_of_neg (by simp [isLeafItem, isDir]), hentries, leaves]

theorem countP_walkEntries {path : Path} {names : List Name} :
    (es : List (Name × Node)) → (∀ fault, .error fault ∉ walkEntries path names es) →
      (walkEntries path names es).countP isLeafItem = leavesOfEntries es
  | [], _ => rfl
  | (x, c) :: es, h => by
    rw [walkEntries] at h ⊢
    rw [List.countP_append, countP_walk c fun fault hf => h fault (List.mem_append_left _ hf),
      countP_walkEntries es fun fault hf => h fault (List.mem_append_right _ hf),
      leavesOfEntries]

end

/-- A walk starts with the node itself. -/
theorem below_of_walk {n : Node} {path : Path} {names : List Name} {after : Walk}
    {item : WalkItem} (h : n.walk path names = .ok item :: after) : item.below = names := by
  rcases n with data | target | ⟨⟨- | -, w⟩, es⟩ <;> simp only [walk, List.cons.injEq] at h <;>
    rw [← Except.ok.inj h.1]

mutual

/-- **A walk comes by a directory before its entries.** -/
theorem walk_nested {path : Path} {names : List Name} {before after : Walk} {item : WalkItem} :
    (n : Node) → n.walk path names = before ++ .ok item :: after →
      before = [] ∧ item.below = names ∨
        ∃ above x, item.below = above ++ [x] ∧ Walk.ListsDir before above
  | .file data, h => by
    cases before with
    | nil => exact .inl ⟨rfl, below_of_walk h⟩
    | cons i before => simp [walk] at h
  | .link target, h => by
    cases before with
    | nil => exact .inl ⟨rfl, below_of_walk h⟩
    | cons i before => simp [walk] at h
  | .dir ⟨false, w⟩ es, h => by
    rcases before with - | ⟨i, - | ⟨j, before⟩⟩
    · exact .inl ⟨rfl, below_of_walk h⟩
    · simp [walk] at h
    · simp [walk] at h
  | .dir ⟨true, w⟩ es, h => by
    cases before with
    | nil => exact .inl ⟨rfl, below_of_walk h⟩
    | cons i before =>
      rw [walk, List.cons_append] at h
      obtain ⟨rfl, hes⟩ := List.cons.inj h
      obtain ⟨above, x, hbelow, habove⟩ := walkEntries_nested es hes
      refine .inr ⟨above, x, hbelow, ?_⟩
      rcases habove with rfl | hdir
      · exact ⟨_, List.mem_cons_self .., rfl, rfl⟩
      · exact hdir.mono (List.subset_cons_self _ _)

theorem walkEntries_nested {path : Path} {names : List Name} {before after : Walk}
    {item : WalkItem} :
    (es : List (Name × Node)) → walkEntries path names es = before ++ .ok item :: after →
      ∃ above x, item.below = above ++ [x] ∧ (above = names ∨ Walk.ListsDir before above)
  | [], h => by simp [walkEntries] at h
  | (x, c) :: es, h => by
    rw [walkEntries] at h
    rcases List.append_eq_append_iff.mp h with ⟨rest, hbefore, hes⟩ | ⟨rest, hc, hafter⟩
    · -- the item is listed with a later entry
      obtain ⟨above, y, hbelow, habove⟩ := walkEntries_nested es hes
      refine ⟨above, y, hbelow, habove.imp_right fun hdir => hdir.mono ?_⟩
      rw [hbefore]
      exact List.subset_append_right _ _
    · cases rest with
      | nil =>
        -- the item is the first of the later entries
        have hes : walkEntries path names es = [] ++ .ok item :: after := hafter.symm
        obtain ⟨above, y, hbelow, habove⟩ := walkEntries_nested es hes
        refine ⟨above, y, hbelow, habove.imp_right fun hdir => ?_⟩
        exact hdir.mono (List.nil_subset _)
      | cons i rest =>
        obtain ⟨rfl, -⟩ := List.cons.inj hafter
        rcases walk_nested c hc with ⟨-, hbelow⟩ | ⟨above, y, hbelow, hdir⟩
        · exact ⟨names, x, hbelow, .inl rfl⟩
        · exact ⟨above, y, hbelow, .inr hdir⟩

end

end Node

namespace Disk

/-- What is reached from a path: what it leads to, through links, and what that holds. -/
def Reaches (d : Disk) (cwd : List Name) (p : Path) (rel : List Name) (n : Node) : Prop :=
  ∃ top, d.stat cwd p = .ok top ∧ top.Holds rel n

section

variable {d : Disk} {cwd : List Name} {p : Path} {rel : List Name} {n : Node}

theorem distinct_of_stat (h : d.stat cwd p = .ok n) : n.Distinct := by
  obtain ⟨place, hl⟩ := stat_eq_ok_iff.mp h
  obtain ⟨-, -, hn, -⟩ := locate_eq_ok_iff.mp hl
  exact Node.distinct_of_get? d.distinct hn

/-- What a node holds stands below the place of the node. -/
theorem get?_of_holds {place : List Name} {top : Node} (h : d.get? place = some top)
    (hn : top.Holds rel n) : d.get? (place ++ rel) = some n := by
  rw [get?_append_of_get? h, hn.get?]

/-- What is reached stands below the place that the path leads to. -/
theorem Reaches.exists_place (h : d.Reaches cwd p rel n) :
    ∃ place top, d.locate cwd p true = .ok (place, top) ∧ top.Holds rel n ∧
      d.get? (place ++ rel) = some n := by
  obtain ⟨top, htop, hn⟩ := h
  obtain ⟨place, hl⟩ := stat_eq_ok_iff.mp htop
  obtain ⟨-, -, hget, -⟩ := locate_eq_ok_iff.mp hl
  exact ⟨place, top, hl, hn, get?_of_holds hget hn⟩

theorem reaches_of_mem_walk_node (h : d.stat cwd p = .ok n) {item : WalkItem}
    (hi : .ok item ∈ n.walk p []) : d.Reaches cwd p item.below item.node := by
  obtain ⟨rel, m, hm, hi⟩ := (Node.mem_walk_iff n (distinct_of_stat h)).mp hi
  rw [Node.ok_mem_itemsAt.mp hi]
  exact ⟨n, h, hm⟩

/-- Every item of a walk but the first was reached. -/
theorem reaches_of_mem_walk {item : WalkItem} (h : .ok item ∈ d.walk cwd p)
    (hne : item.below ≠ []) : d.Reaches cwd p item.below item.node := by
  rw [walk, walkWith] at h
  split at h
  · simp at h
  · split at h
    · simp at h
    · next l es hs =>
      rcases List.mem_cons.mp h with hi | hi
      · obtain rfl : item = ⟨p, [], _⟩ := by simpa using hi
        exact absurd rfl hne
      · exact reaches_of_mem_walk_node hs (List.mem_of_mem_tail hi)
    · obtain rfl : item = ⟨p, [], _⟩ := by simpa using h
      exact absurd rfl hne
  · next m hnlink hl =>
    refine reaches_of_mem_walk_node (stat_of_lstat hl ?_) h
    cases m with
    | link target => exact absurd rfl (hnlink target)
    | file data => rfl
    | dir l es => rfl

end

/-! ### Walks and what is reached -/

section

variable {d : Disk} {cwd : List Name} {p : Path} {rel : List Name} {n : Node}

theorem mem_sortedWalk_iff {i : Except WalkFault WalkItem} :
    i ∈ d.sortedWalk cwd p ↔ i ∈ d.walk cwd p := by
  rw [sortedWalk, walk, walkWith, walkWith]
  cases d.lstat cwd p with
  | error e => rfl
  | ok n =>
    cases n with
    | link target =>
      cases d.stat cwd p with
      | error e => rfl
      | ok m =>
        cases m with
        | dir l es =>
          rcases l with ⟨- | -, w⟩
          · simp only [Node.sortedWalk, Node.walk]
          · simp only [Node.sortedWalk, Node.walk, List.tail_cons, List.mem_cons,
              Node.mem_flatMap_mergeSort_iff es]
        | file data => rfl
        | link target => rfl
    | dir l es => exact Node.mem_sortedWalk_iff _
    | file data => exact Node.mem_sortedWalk_iff _

/-- What a walk comes by is where its names lead from the start. -/
theorem path_of_mem_walk {item : WalkItem} (h : .ok item ∈ d.walk cwd p) :
    item.path = p.below item.below := by
  have hnode : ∀ {m : Node}, m.Distinct → .ok item ∈ m.walk p [] →
      item.path = p.below item.below := by
    intro m hm hi
    obtain ⟨rel, c, -, hi⟩ := (Node.mem_walk_iff m hm).mp hi
    rw [Node.ok_mem_itemsAt.mp hi]
    rfl
  rw [walk, walkWith] at h
  split at h
  · simp at h
  · split at h
    · simp at h
    · next l es hs =>
      rcases List.mem_cons.mp h with hi | hi
      · obtain rfl : item = ⟨p, [], _⟩ := by simpa using hi
        rfl
      · exact hnode (distinct_of_stat hs) (List.mem_of_mem_tail hi)
    · obtain rfl : item = ⟨p, [], _⟩ := by simpa using h
      rfl
  · next m hnlink hl =>
    obtain ⟨place, hloc⟩ := lstat_eq_ok_iff.mp hl
    obtain ⟨-, -, hget, -⟩ := locate_eq_ok_iff.mp hloc
    exact hnode (Node.distinct_of_get? d.distinct hget) h

/-- After its start, a walk of a directory only comes by what is below. -/
theorem below_ne_nil_of_mem_tail {l : Access} {es : List (Name × Node)}
    (h : (Node.dir l es).Distinct) {item : WalkItem}
    (hi : .ok item ∈ ((Node.dir l es).walk p []).tail) : item.below ≠ [] := by
  rcases l with ⟨- | -, w⟩
  · simp [Node.walk] at hi
  · rw [Node.walk, List.tail_cons] at hi
    obtain ⟨x, c, rel, m, -, -, hi⟩ := (Node.mem_walkEntries_iff es h).mp hi
    rw [Node.ok_mem_itemsAt.mp hi]
    simp

/-- The start of a walk is what the path leads to, a link not followed. -/
theorem lstat_of_mem_walk {item : WalkItem} (h : .ok item ∈ d.walk cwd p)
    (hstart : item.below = []) : d.lstat cwd p = .ok item.node := by
  rw [walk, walkWith] at h
  cases hl : d.lstat cwd p with
  | error e => simp [hl] at h
  | ok m =>
    obtain ⟨place, hloc⟩ := lstat_eq_ok_iff.mp hl
    obtain ⟨-, -, hget, -⟩ := locate_eq_ok_iff.mp hloc
    have hnode : .ok item ∈ m.walk p [] → (Except.ok m : Except IoError Node) = .ok item.node := by
      intro hi
      obtain ⟨rel, c, hc, hi⟩ :=
        (Node.mem_walk_iff m (Node.distinct_of_get? d.distinct hget)).mp hi
      obtain rfl := Node.ok_mem_itemsAt.mp hi
      obtain rfl : rel = [] := hstart
      cases hc
      rfl
    rw [hl] at h
    cases m with
    | file data => exact hnode h
    | dir l es => exact hnode h
    | link target =>
      split at h
      · next heq => simp at heq
      · next heq =>
        obtain rfl := Node.link.inj (Except.ok.inj heq)
        split at h
        · simp at h
        · next l es hs =>
          rcases List.mem_cons.mp h with hi | hi
          · obtain rfl : item = ⟨p, [], _⟩ := by simpa using hi
            rfl
          · exact absurd hstart (below_ne_nil_of_mem_tail (distinct_of_stat hs) hi)
        · obtain rfl : item = ⟨p, [], _⟩ := by simpa using h
          rfl
      · next heq hlink => exact absurd (Except.ok.inj hlink).symm (heq target)

/-- **What is reached is come by in a walk,** at the start if it stands there itself. -/
theorem Reaches.mem_walk (h : d.Reaches cwd p rel n) (hstart : rel = [] → d.lstat cwd p = .ok n) :
    .ok ⟨p.below rel, rel, n⟩ ∈ d.walk cwd p := by
  obtain ⟨top, htop, hn⟩ := h
  have hmem : .ok ⟨p.below rel, rel, n⟩ ∈ top.walk p [] :=
    (Node.mem_walk_iff top (distinct_of_stat htop)).mpr
      ⟨rel, n, hn, Node.ok_mem_itemsAt.mpr (by rw [List.nil_append])⟩
  obtain ⟨m, hm, hsame⟩ := exists_lstat_of_stat htop
  rw [walk, walkWith, hm]
  cases m with
  | file data =>
    obtain rfl := hsame rfl
    exact hmem
  | dir l es =>
    obtain rfl := hsame rfl
    exact hmem
  | link target =>
    simp only [htop]
    cases hn with
    | self =>
      obtain rfl : Node.link target = n := Except.ok.inj (hm.symm.trans (hstart rfl))
      exact List.mem_singleton_self _
    | entry hx hc =>
      -- below a link that is walked through, the first item aside, all is as in the directory
      rw [Node.walk] at hmem
      simp only [Node.walk, List.tail_cons, List.mem_cons]
      exact .inr ((List.mem_cons.mp hmem).resolve_left (by simp))

/-- **The names of what a path reaches** lead to it. -/
theorem locate_below {place : List Name} {top : Node} (h : d.locate cwd p true = .ok (place, top))
    (hn : top.Holds rel n) (hlink : n.isLink = false) (hnul : '\x00' ∉ (p.below rel).text.toList) :
    d.locate cwd (p.below rel) true = .ok (place ++ rel, n) := by
  induction hn generalizing p place with
  | self n => rwa [List.append_nil]
  | @entry w es x c m rel hx hc ih =>
    have hx' : x.text.toList.contains '\x00' = false := by
      rw [List.contains_eq_mem, decide_eq_false_iff_not]
      exact fun hmem => hnul ((Path.mem_toList_below (by decide)).mpr
        (.inr ⟨x, List.mem_cons_self .., hmem⟩))
    have hchild := locate_child h hx hx'
    have hclink : c.isLink = false := by
      cases hc with
      | self => exact hlink
      | entry _ _ => rfl
    have hrest := ih (locate_true_of_not_isLink hchild hclink) hlink hnul
    rwa [List.append_assoc, List.singleton_append] at hrest

end

/-- What a directory holds below a name is held by what stands there. -/
theorem holds_cons_iff {d : Disk} {place rel : List Name} {x : Name} {n m : Node}
    (hn : d.get? place = some n) :
    n.Holds (x :: rel) m ↔
      (∃ w, n.kind = .dir ⟨true, w⟩) ∧ ∃ c, d.get? (place ++ [x]) = some c ∧ c.Holds rel m := by
  constructor
  · intro h
    cases h with
    | entry hx hc => exact ⟨⟨_, rfl⟩, _, (get?_concat hn x).trans hx, hc⟩
  · rintro ⟨⟨w, hk⟩, c, hc, hm⟩
    obtain ⟨es, rfl⟩ := Node.kind_eq_dir_iff.mp hk
    exact .entry ((get?_concat hn x).symm.trans hc) hm

/-- What a node holds in one disk is held in another that has all of it at the same places. -/
theorem exists_holds_of_kindAt {d' d : Disk} {n' m' : Node} {rel : List Name}
    (hm : n'.Holds rel m') : ∀ {place : List Name} {n : Node},
      (∀ r, d'.kindAt (place ++ r) ≠ none → d'.kindAt (place ++ r) = d.kindAt (place ++ r)) →
      d'.get? place = some n' → d.get? place = some n → n.kind = n'.kind →
        ∃ m, n.Holds rel m ∧ m.kind = m'.kind := by
  -- the names are followed in both disks, one directory at a time
  induction hm with
  | self n' => intro place n _ _ _ hk; exact ⟨n, .self n, hk⟩
  | @entry w es x c m' rel hx hc ih =>
    intro place n hkinds hn' hn hk
    obtain ⟨es', rfl⟩ := Node.kind_eq_dir_iff.mp hk
    have hget' : d'.get? (place ++ [x]) = some c := (get?_concat hn' x).trans hx
    have hkind : d.kindAt (place ++ [x]) = some c.kind :=
      (hkinds [x] (by simp [kindAt_of_get? hget'])).symm.trans (kindAt_of_get? hget')
    obtain ⟨c₂, hget, hck⟩ := kindAt_eq_some_iff.mp hkind
    have hlookup : es'.lookup x = some c₂ := (get?_concat hn x).symm.trans hget
    obtain ⟨m, hm, hmk⟩ := ih (fun r => by simpa using hkinds (x :: r)) hget' hget hck
    exact ⟨m, .entry hlookup hm, hmk⟩

/-- **What is reached after things were removed** was reached before. -/
theorem Reaches.of_within {d' d : Disk} {cwd : List Name} {p : Path} {rel : List Name} {n' : Node}
    (h : d'.Within d) (hr : d'.Reaches cwd p rel n') :
    ∃ n, d.Reaches cwd p rel n ∧ n.kind = n'.kind := by
  obtain ⟨place, top', hl', hn', -⟩ := hr.exists_place
  obtain ⟨top, hl, hk⟩ := locate_of_within h hl'
  obtain ⟨-, -, hget', -⟩ := locate_eq_ok_iff.mp hl'
  obtain ⟨-, -, hget, -⟩ := locate_eq_ok_iff.mp hl
  obtain ⟨n, hn, hnk⟩ := exists_holds_of_kindAt hn' (fun r => h _) hget' hget hk
  exact ⟨n, ⟨top, stat_eq_ok_iff.mpr ⟨place, hl⟩, hn⟩, hnk⟩

end Disk

end SuiteGate
