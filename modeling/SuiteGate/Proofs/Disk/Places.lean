import Mathlib.Data.List.Basic
import Mathlib.Data.List.Infix
import Mathlib.Tactic.Common
import SuiteGate.Disk.Basic
/-!
# What stands at a place

A tree is read through its places (`Node.get?`).  This file says what a change at one place
(`Disk.alter`) does to all places: at and below it there is what was put there
(`get?_alter_append`), and all others keep their kind (`kindAt_alter`).  The kind of a node
(`Kind`) is all that is needed to follow a path.

Headlines are the laws of the changes that operations are made of: `kindAt_erase`, `kindAt_put`.
-/

namespace SuiteGate

/-- What kind of thing a node is: a certain file, a link to a certain path, or a directory,
whatever is in it. -/
inductive Kind where
  | file (data : FileData)
  | link (target : Path)
  | dir (access : Access)

namespace Node

/-- The kind of a node. -/
def kind : Node → Kind
  | .file data => .file data
  | .link target => .link target
  | .dir access _ => .dir access

theorem kind_eq_file_iff {n : Node} {data : FileData} : n.kind = .file data ↔ n = .file data := by
  cases n <;> simp [kind]

theorem kind_eq_link_iff {n : Node} {target : Path} : n.kind = .link target ↔ n = .link target := by
  cases n <;> simp [kind]

theorem kind_eq_dir_iff {n : Node} {l : Access} : n.kind = .dir l ↔ ∃ es, n = .dir l es := by
  cases n <;> simp [kind]

theorem isDir_iff {n : Node} : n.isDir = true ↔ ∃ l, n.kind = .dir l := by
  cases n <;> simp [kind, isDir]

theorem isDir_eq_of_kind_eq {n m : Node} (h : n.kind = m.kind) : n.isDir = m.isDir := by
  rw [Bool.eq_iff_iff, isDir_iff, isDir_iff, h]

/-- What is no directory is known by its kind. -/
theorem kind_eq_iff_of_leaf {n m : Node} (hm : m.isDir = false) : n.kind = m.kind ↔ n = m := by
  cases m with
  | file data => exact kind_eq_file_iff
  | link target => exact kind_eq_link_iff
  | dir l es => cases hm

theorem exists_eq_dir {n : Node} (h : n.isDir = true) : ∃ l es, n = .dir l es := by
  cases n with
  | dir l es => exact ⟨l, es, rfl⟩
  | file data => simp [isDir] at h
  | link target => simp [isDir] at h

/-! ### Looking up places -/

theorem get?_nil (n : Node) : n.get? [] = some n := by
  cases n <;> rfl

theorem get?_cons (n : Node) (x : Name) (rest : List Name) :
    n.get? (x :: rest) = (n.entries.lookup x).bind fun c => c.get? rest := by
  cases n <;> rfl

/-- Going along `p ++ q` is going along `p`, and along `q` from there. -/
theorem get?_append (n : Node) (p q : List Name) :
    n.get? (p ++ q) = (n.get? p).bind fun c => c.get? q := by
  induction p generalizing n with
  | nil => rw [List.nil_append, get?_nil, Option.bind_some]
  | cons x p ih =>
    rw [List.cons_append, get?_cons, get?_cons]
    cases n.entries.lookup x with
    | none => rfl
    | some c => exact ih c

/-- Only directories have something below them. -/
theorem isDir_of_get?_append {n m : Node} {p : List Name} {x : Name} {q : List Name}
    (h : n.get? (p ++ x :: q) = some m) : ∃ c, n.get? p = some c ∧ c.isDir = true := by
  rw [get?_append, Option.bind_eq_some_iff] at h
  obtain ⟨c, hc, hm⟩ := h
  refine ⟨c, hc, ?_⟩
  cases c with
  | dir l es => rfl
  | file data => simp [get?] at hm
  | link target => simp [get?] at hm

/-! ### Changing one place -/

theorem lookup_eq_none_of_not_mem {x : Name} {es : List (Name × Node)}
    (h : x ∉ es.map (·.1)) : es.lookup x = none := by
  rw [List.lookup_eq_none_iff]
  intro p hp
  have : x ≠ p.1 := fun hx => h (hx ▸ List.mem_map_of_mem hp)
  simpa using this

theorem nodup_of_distinctEntries {es : List (Name × Node)} (h : DistinctEntries es) :
    (es.map (·.1)).Nodup := by
  induction es with
  | nil => exact .nil
  | cons p es ih =>
    obtain ⟨k, c⟩ := p
    obtain ⟨hk, -, hes⟩ := h
    exact List.nodup_cons.mpr ⟨hk, ih hes⟩

theorem lookup_cons_eq (k : Name) (c : Node) (es : List (Name × Node)) (y : Name) :
    ((k, c) :: es).lookup y = if y = k then some c else es.lookup y := by
  rw [List.lookup_cons]
  by_cases hy : y = k
  · simp [hy]
  · have : (y == k) = false := by simpa using hy
    rw [this, if_neg hy]

/-- **Changing one entry,** seen through look-ups. -/
theorem lookup_alterEntries {x : Name} {f : Option Node → Option Node} {es : List (Name × Node)}
    (h : DistinctEntries es) (y : Name) :
    (alterEntries x f es).lookup y = if y = x then f (es.lookup x) else es.lookup y := by
  induction es with
  | nil =>
    rw [alterEntries, List.lookup_nil, List.lookup_nil]
    cases hf : f none with
    | none => by_cases hy : y = x <;> simp [hy]
    | some c => rw [lookup_cons_eq]; rfl
  | cons p es ih =>
    obtain ⟨k, c⟩ := p
    obtain ⟨hk, -, hes⟩ := h
    rw [alterEntries]
    by_cases hkx : k = x
    · -- the entry to be changed comes first, and no other has its name
      subst hkx
      rw [if_pos rfl, lookup_cons_eq, lookup_cons_eq, if_pos rfl]
      cases hf : f (some c) with
      | none =>
        by_cases hy : y = k
        · simp [hy, lookup_eq_none_of_not_mem hk]
        · simp [hy]
      | some c' =>
        by_cases hy : y = k <;> simp [lookup_cons_eq, hy]
    · rw [if_neg hkx, lookup_cons_eq, lookup_cons_eq, lookup_cons_eq, ih hes,
        if_neg (Ne.symm hkx)]
      by_cases hyk : y = k
      · rw [if_pos hyk, if_neg (hyk ▸ hkx)]
        rw [if_pos hyk]
      · rw [if_neg hyk, if_neg hyk]

/-- What stands at a place below a node, if there is a node. -/
def find? (o : Option Node) (place : List Name) : Option Node :=
  o.bind fun n => n.get? place

theorem find?_cons (o : Option Node) (x : Name) (rest : List Name) :
    find? o (x :: rest) = find? (o.bind fun n => n.entries.lookup x) rest := by
  cases o with
  | none => rfl
  | some n => exact get?_cons n x rest

section

variable {f : Option Node → Option Node}

/-- The entries of a directory after a change below it. -/
theorem lookup_entries_alter {o : Option Node} (ho : ∀ c ∈ o, c.Distinct) (x : Name)
    (rest : List Name) (y : Name)
    (hdir : ∀ n ∈ o, n.isDir = true) (hne : o ≠ none) :
    ((alter (x :: rest) f o).bind fun n => n.entries.lookup y) =
      if y = x then alter rest f (o.bind fun n => n.entries.lookup x)
      else o.bind fun n => n.entries.lookup y := by
  cases o with
  | none => exact absurd rfl hne
  | some n =>
    obtain ⟨l, es, rfl⟩ := exists_eq_dir (hdir n rfl)
    have hes : DistinctEntries es := ho _ rfl
    exact lookup_alterEntries hes y

theorem distinct_of_mem_lookup {o : Option Node} (ho : ∀ c ∈ o, c.Distinct) (x : Name) :
    ∀ c ∈ o.bind fun n => n.entries.lookup x, c.Distinct := by
  intro c hc
  rw [Option.mem_def, Option.bind_eq_some_iff] at hc
  obtain ⟨n, hn, hc⟩ := hc
  cases n with
  | dir l es => exact distinct_of_lookup (ho _ hn) hc
  | file data => simp [entries] at hc
  | link target => simp [entries] at hc

/-- A change below anything but a directory changes nothing. -/
theorem alter_cons_of_not_dir {o : Option Node} {x : Name} {rest : List Name}
    (h : ∀ n ∈ o, n.isDir = false) : alter (x :: rest) f o = o := by
  cases o with
  | none => rfl
  | some n =>
    cases n with
    | file data => rfl
    | link target => rfl
    | dir l es => simpa [isDir] using h _ rfl

/-- Places that are not at or below the changed one keep their kind. -/
theorem kind_find?_alter {place : List Name} : ∀ {o : Option Node} {q : List Name},
    (∀ c ∈ o, c.Distinct) → ¬ place <+: q →
      (find? (alter place f o) q).map kind = (find? o q).map kind := by
  induction place with
  | nil => intro o q _ h; exact absurd (List.nil_prefix) h
  | cons x rest ih =>
    intro o q ho h
    by_cases hd : ∀ n ∈ o, n.isDir = false
    · rw [alter_cons_of_not_dir hd]
    · obtain ⟨n, hn, hdir⟩ : ∃ n ∈ o, n.isDir = true := by simpa using hd
      obtain rfl : o = some n := hn
      cases q with
      | nil =>
        -- a directory that is changed below stays a directory
        obtain ⟨l, es, rfl⟩ := exists_eq_dir hdir
        simp [find?, alter, get?_nil, kind]
      | cons y q =>
        rw [find?_cons, find?_cons,
          lookup_entries_alter ho x rest y (by simpa using hdir) (by simp)]
        by_cases hy : y = x
        · subst hy
          rw [if_pos rfl]
          rw [List.cons_prefix_cons] at h
          exact ih (distinct_of_mem_lookup ho y) fun hp => h ⟨rfl, hp⟩
        · rw [if_neg hy]

/-- What is neither above nor below the changed place is as before. -/
theorem find?_alter_of_apart {place : List Name} : ∀ {o : Option Node} {q : List Name},
    (∀ c ∈ o, c.Distinct) → ¬ place <+: q → ¬ q <+: place →
      find? (alter place f o) q = find? o q := by
  induction place with
  | nil => intro o q _ h; exact absurd List.nil_prefix h
  | cons x rest ih =>
    intro o q ho h h'
    by_cases hd : ∀ n ∈ o, n.isDir = false
    · rw [alter_cons_of_not_dir hd]
    · obtain ⟨n, hn, hdir⟩ : ∃ n ∈ o, n.isDir = true := by simpa using hd
      obtain rfl : o = some n := hn
      cases q with
      | nil => exact absurd List.nil_prefix h'
      | cons y q =>
        rw [find?_cons, find?_cons,
          lookup_entries_alter ho x rest y (by simpa using hdir) (by simp)]
        by_cases hy : y = x
        · subst hy
          rw [if_pos rfl]
          rw [List.cons_prefix_cons] at h h'
          exact ih (distinct_of_mem_lookup ho y) (fun hp => h ⟨rfl, hp⟩) fun hp => h' ⟨rfl, hp⟩
        · rw [if_neg hy]

/-- At and below the changed place there is what was put there, if the place is in a directory. -/
theorem find?_alter_append {place : List Name} : ∀ {o : Option Node} (r : List Name),
    (∀ c ∈ o, c.Distinct) →
      (∀ init x, place = init ++ [x] → ∃ n, find? o init = some n ∧ n.isDir = true) →
        find? (alter place f o) (place ++ r) = find? (f (find? o place)) r := by
  induction place with
  | nil =>
    intro o r _ _
    have : find? o [] = o := by cases o <;> simp [find?, get?_nil]
    rw [this, alter, List.nil_append]
  | cons x rest ih =>
    intro o r ho hparent
    -- a directory before the last name of the place is one before the first name, too
    have hd : ∃ n, o = some n ∧ n.isDir = true := by
      rcases List.eq_nil_or_concat' rest with rfl | ⟨init, z, rfl⟩
      · obtain ⟨n, hn, hdir⟩ := hparent [] x rfl
        refine ⟨n, ?_, hdir⟩
        cases o with
        | none => simp [find?] at hn
        | some m => simpa [find?, get?_nil] using hn
      · obtain ⟨n, hn, -⟩ := hparent (x :: init) z (by simp)
        cases o with
        | none => simp [find?] at hn
        | some m =>
          refine ⟨m, rfl, ?_⟩
          rw [find?_cons] at hn
          cases m with
          | dir l es => rfl
          | file data => simp [entries, find?] at hn
          | link target => simp [entries, find?] at hn
    obtain ⟨n, rfl, hdir⟩ := hd
    rw [List.cons_append, find?_cons,
      lookup_entries_alter ho x rest x (by simpa using hdir) (by simp), if_pos rfl, find?_cons]
    refine ih r (distinct_of_mem_lookup ho x) fun init z hz => ?_
    obtain ⟨m, hm, hmdir⟩ := hparent (x :: init) z (by rw [hz, List.cons_append])
    exact ⟨m, by rwa [find?_cons] at hm, hmdir⟩

/-- Nothing is left at and below a place that is erased. -/
theorem find?_erase_append {place : List Name} : ∀ {o : Option Node} (r : List Name),
    (∀ c ∈ o, c.Distinct) → find? (alter place (fun _ => none) o) (place ++ r) = none := by
  induction place with
  | nil => intro o r _; rfl
  | cons x rest ih =>
    intro o r ho
    by_cases hd : ∀ n ∈ o, n.isDir = false
    · -- nothing changes, and there was nothing before
      rw [alter_cons_of_not_dir hd, List.cons_append, find?_cons]
      cases o with
      | none => rfl
      | some n => cases n <;> simp_all [entries, find?, isDir]
    · obtain ⟨n, hn, hdir⟩ : ∃ n ∈ o, n.isDir = true := by simpa using hd
      obtain rfl : o = some n := hn
      rw [List.cons_append, find?_cons,
        lookup_entries_alter ho x rest x (by simpa using hdir) (by simp), if_pos rfl]
      exact ih r (distinct_of_mem_lookup ho x)

end

end Node

namespace Disk

/-- The kind of what stands at a place. -/
def kindAt (d : Disk) (place : List Name) : Option Kind :=
  (d.get? place).map Node.kind

/-- There is a directory at a place. -/
def DirAt (d : Disk) (place : List Name) : Prop :=
  ∃ l, d.kindAt place = some (.dir l)

/-- Neither of two places is in the tree of the other. -/
def Apart (p q : List Name) : Prop :=
  ¬ p <+: q ∧ ¬ q <+: p

instance (p q : List Name) : Decidable (Apart p q) :=
  inferInstanceAs (Decidable (¬ p <+: q ∧ ¬ q <+: p))

/-- What is below the first of two places, and what is below the second, are apart, too. -/
theorem Apart.append {p q : List Name} (h : Apart p q) (r t : List Name) :
    Apart (p ++ r) (q ++ t) := by
  constructor
  · intro hp
    rcases List.prefix_or_prefix_of_prefix ((List.prefix_append p r).trans hp)
      (List.prefix_append q t) with hin | hin
    · exact h.1 hin
    · exact h.2 hin
  · intro hq
    rcases List.prefix_or_prefix_of_prefix ((List.prefix_append q t).trans hq)
      (List.prefix_append p r) with hin | hin
    · exact h.2 hin
    · exact h.1 hin

theorem kindAt_of_get? {d : Disk} {p : List Name} {n : Node} (h : d.get? p = some n) :
    d.kindAt p = some n.kind := by
  rw [kindAt, h, Option.map_some]

theorem get?_append_of_get? {d : Disk} {p : List Name} {n : Node} (h : d.get? p = some n)
    (q : List Name) : d.get? (p ++ q) = n.get? q := by
  have h : d.root.get? p = some n := h
  rw [get?, Node.get?_append, h, Option.bind_some]

/-- What stands below a directory are its entries. -/
theorem get?_concat {d : Disk} {p : List Name} {l : Access} {es : List (Name × Node)}
    (h : d.get? p = some (.dir l es)) (x : Name) : d.get? (p ++ [x]) = es.lookup x := by
  rw [get?_append_of_get? h, Node.get?_cons, Node.entries]
  cases es.lookup x with
  | none => rfl
  | some c => exact Node.get?_nil c

theorem kindAt_eq_none_iff {d : Disk} {p : List Name} : d.kindAt p = none ↔ d.get? p = none :=
  Option.map_eq_none_iff

theorem kindAt_eq_some_iff {d : Disk} {p : List Name} {k : Kind} :
    d.kindAt p = some k ↔ ∃ n, d.get? p = some n ∧ n.kind = k :=
  Option.map_eq_some_iff

theorem dirAt_iff {d : Disk} {p : List Name} :
    d.DirAt p ↔ ∃ n, d.get? p = some n ∧ n.isDir = true := by
  constructor
  · rintro ⟨l, h⟩
    obtain ⟨n, hn, hk⟩ := kindAt_eq_some_iff.mp h
    exact ⟨n, hn, Node.isDir_iff.mpr ⟨l, hk⟩⟩
  · rintro ⟨n, hn, hdir⟩
    obtain ⟨l, hl⟩ := Node.isDir_iff.mp hdir
    exact ⟨l, kindAt_eq_some_iff.mpr ⟨n, hn, hl⟩⟩

theorem dirAt_nil (d : Disk) : d.DirAt [] :=
  dirAt_iff.mpr ⟨d.root, Node.get?_nil _, d.isDir_root⟩

/-- Above everything there are directories. -/
theorem dirAt_of_append {d : Disk} {p q : List Name} (h : d.kindAt (p ++ q) ≠ none)
    (hq : q ≠ []) : d.DirAt p := by
  cases q with
  | nil => exact absurd rfl hq
  | cons x q =>
    obtain ⟨m, hm⟩ := Option.ne_none_iff_exists'.mp (mt kindAt_eq_none_iff.mpr h)
    exact dirAt_iff.mpr (Node.isDir_of_get?_append hm)

/-- Nothing stands below a place where there is no directory. -/
theorem kindAt_append_eq_none {d : Disk} {p : List Name} (h : ¬ d.DirAt p) {q : List Name}
    (hq : q ≠ []) : d.kindAt (p ++ q) = none := by
  by_contra hne
  exact h (dirAt_of_append hne hq)

/-- Nothing stands at or below a free place. -/
theorem kindAt_eq_none_below {d : Disk} {p q : List Name} (h : d.kindAt p = none)
    (hq : p <+: q) : d.kindAt q = none := by
  obtain ⟨r, rfl⟩ := hq
  by_cases hr : r = []
  · rw [hr, List.append_nil, h]
  · refine kindAt_append_eq_none ?_ hr
    rintro ⟨l, hl⟩
    cases h.symm.trans hl

theorem DirAt.dropLast_concat {d : Disk} {init : List Name} {x : Name}
    (h : d.DirAt (init ++ [x])) : d.DirAt init := by
  obtain ⟨l, hl⟩ := h
  exact dirAt_of_append (by rw [hl]; simp) (List.cons_ne_nil x [])

theorem DirAt.dropLast {d : Disk} {p : List Name} (h : d.DirAt p) : d.DirAt p.dropLast := by
  rcases List.eq_nil_or_concat' p with rfl | ⟨init, x, rfl⟩
  · exact h
  · rw [List.dropLast_concat]
    exact h.dropLast_concat

@[simp] theorem kindAt_tick (d : Disk) (p : List Name) : d.tick.kindAt p = d.kindAt p := rfl

theorem get?_tick (d : Disk) (p : List Name) : d.tick.get? p = d.get? p := rfl

section

variable {d : Disk} {place : List Name} {f : Option Node → Option Node}
  {hf : ∀ o : Option Node, (∀ c ∈ o, c.Distinct) → ∀ c ∈ f o, c.Distinct}

/-- A changed disk, seen through the changed tree. -/
theorem get?_alter (h : place ≠ []) (q : List Name) :
    (d.alter place f hf).get? q = Node.find? (Node.alter place f (some d.root)) q := by
  cases place with
  | nil => exact absurd rfl h
  | cons x rest =>
    obtain ⟨l, es, hr⟩ := Node.exists_eq_dir d.isDir_root
    rw [get?, alter]
    simp only [hr, Node.alter]
    rfl

theorem find?_root (q : List Name) : Node.find? (some d.root) q = d.get? q := rfl

theorem distinct_root : ∀ c ∈ some d.root, c.Distinct := by
  simpa using d.distinct

theorem kindAt_alter {q : List Name} (h : ¬ place <+: q) :
    (d.alter place f hf).kindAt q = d.kindAt q := by
  have hne : place ≠ [] := by rintro rfl; exact h List.nil_prefix
  rw [kindAt, get?_alter hne, Node.kind_find?_alter distinct_root h, find?_root]
  rfl

/-- What is in a tree of its own is as before. -/
theorem get?_alter_of_apart {q : List Name} (h : Apart place q) :
    (d.alter place f hf).get? q = d.get? q := by
  have hne : place ≠ [] := by rintro rfl; exact h.1 List.nil_prefix
  rw [get?_alter hne, Node.find?_alter_of_apart distinct_root h.1 h.2, find?_root]

/-- What stands at and below a changed place in a directory. -/
theorem get?_alter_append (init : List Name) (x : Name) (h : d.DirAt init)
    (hplace : place = init ++ [x]) (r : List Name) :
    (d.alter place f hf).get? (place ++ r) = Node.find? (f (d.get? place)) r := by
  have hne : place ≠ [] := by simp [hplace]
  rw [get?_alter hne, Node.find?_alter_append r distinct_root, find?_root]
  intro init' y hy
  rw [hplace] at hy
  obtain ⟨rfl, -⟩ := List.append_inj' hy rfl
  exact dirAt_iff.mp h

end

/-! ### The changes that operations are made of -/

/-- **Erasing a place** leaves nothing at and below it, and all other kinds as they are. -/
theorem kindAt_erase {d : Disk} {place : List Name} (h : place ≠ []) (q : List Name) :
    (d.erase place).kindAt q = if place <+: q then none else d.kindAt q := by
  by_cases hq : place <+: q
  · rw [if_pos hq]
    obtain ⟨r, rfl⟩ := hq
    rw [kindAt_eq_none_iff, erase, get?_alter h]
    exact Node.find?_erase_append r distinct_root
  · rw [if_neg hq]
    exact kindAt_alter hq

/-- **Putting a node into a directory** leaves all kinds as they are except at and below it. -/
theorem kindAt_put {d : Disk} {dir : List Name} {x : Name} {n : Node} {hn : n.Distinct}
    (h : d.DirAt dir) (q : List Name) :
    (d.put (dir ++ [x]) n hn).kindAt q =
      if dir ++ [x] <+: q then (n.get? (q.drop (dir ++ [x]).length)).map Node.kind
      else d.kindAt q := by
  by_cases hq : dir ++ [x] <+: q
  · rw [if_pos hq]
    obtain ⟨r, rfl⟩ := hq
    rw [kindAt, put, get?_alter_append dir x h rfl, List.drop_left]
    rfl
  · rw [if_neg hq]
    exact kindAt_alter hq

theorem get?_erase_of_apart {d : Disk} {place q : List Name} (h : Apart place q) :
    (d.erase place).get? q = d.get? q :=
  get?_alter_of_apart h

theorem get?_put_of_apart {d : Disk} {place q : List Name} {n : Node} {hn : n.Distinct}
    (h : Apart place q) : (d.put place n hn).get? q = d.get? q :=
  get?_alter_of_apart h

/-- A node without entries, put where no directory stands, is all that changes. -/
theorem kindAt_put_leaf {d : Disk} {dir : List Name} {x : Name} {n : Node} {hn : n.Distinct}
    (hleaf : n.entries = []) (hdir : d.DirAt dir) (hnot : ¬ d.DirAt (dir ++ [x]))
    (q : List Name) :
    (d.put (dir ++ [x]) n hn).kindAt q =
      if q = dir ++ [x] then some n.kind else d.kindAt q := by
  rw [kindAt_put hdir]
  by_cases hq : dir ++ [x] <+: q
  · obtain ⟨r, rfl⟩ := hq
    rw [if_pos (List.prefix_append _ _), List.drop_left]
    cases r with
    | nil => simp [Node.get?_nil]
    | cons y r =>
      -- there was nothing below the place, and there is nothing now
      rw [if_neg (by simp), kindAt_append_eq_none hnot (by simp), Node.get?_cons, hleaf]
      rfl
  · have hne : q ≠ dir ++ [x] := by
      rintro rfl
      exact hq (List.prefix_refl _)
    rw [if_neg hq, if_neg hne]

end Disk

end SuiteGate
