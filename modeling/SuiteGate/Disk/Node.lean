import SuiteGate.Path
/-!
# File trees

A file tree is made of regular files, symbolic links and directories (`Node`).  The entries of a
directory stand in the order in which the directory is enumerated, and no name occurs twice
(`Node.Distinct`).  A place in the tree is the list of names that leads to it from the root:
`Node.get?` looks it up, `alter` changes what is there, and `strip` takes out entry by entry what
the directories let go (`Access`).  Headlines: changes keep names distinct (`distinct_alter`,
`distinct_strip`), and so do all parts of a tree (`distinct_of_get?`).
-/

namespace SuiteGate

/-- A point in time, in nanoseconds after (or before) the start of 1970. -/
structure Instant where
  nanos : Int
deriving DecidableEq, Repr, Inhabited

namespace Instant

/-- The point in time so many seconds and nanoseconds after the start of 1970. -/
def ofSeconds (secs : Int) (nanos : Nat) : Instant :=
  ⟨secs * 1000000000 + nanos⟩

/-- Whole seconds, rounded down. -/
def seconds (t : Instant) : Int :=
  t.nanos.fdiv 1000000000

/-- The nanoseconds since the last whole second. -/
def subsec (t : Instant) : Nat :=
  (t.nanos.fmod 1000000000).toNat

/-- Whether one point in time is before another. -/
def isBefore (s t : Instant) : Bool :=
  s.nanos < t.nanos

end Instant

/-- A regular file. -/
structure FileData where
  bytes : ByteArray
  modified : Instant
  executable : Bool
deriving Inhabited

/-- What the permissions of a directory admit.  Every directory can be passed through. -/
structure Access where
  /-- Its entries can be listed. -/
  listable : Bool
  /-- Entries can be made in it and taken out of it. -/
  writable : Bool
deriving DecidableEq, Repr

/-- All is permitted. -/
def Access.full : Access := ⟨true, true⟩

/-- What stands at a place of a file tree. -/
inductive Node where
  /-- A regular file. -/
  | file (data : FileData)
  /-- A symbolic link. -/
  | link (target : Path)
  /-- A directory. -/
  | dir (access : Access) (entries : List (Name × Node))
deriving Inhabited

namespace Node

/-- An empty directory. -/
def emptyDir : Node := .dir .full []

/-- Whether a node is a directory. -/
def isDir : Node → Bool
  | .dir .. => true
  | _ => false

/-- Whether a node is a regular file. -/
def isFile : Node → Bool
  | .file _ => true
  | _ => false

/-- Whether a node is a symbolic link. -/
def isLink : Node → Bool
  | .link _ => true
  | _ => false

/-- The entries of a directory; other nodes have none. -/
def entries : Node → List (Name × Node)
  | .dir _ es => es
  | _ => []

/-- What stands below a node at the end of a list of names. -/
def get? : Node → List Name → Option Node
  | n, [] => some n
  | .dir _ es, x :: rest => (es.lookup x).bind fun c => c.get? rest
  | _, _ :: _ => none

/-! ### Changing a tree -/

/-- The entries with one of them changed: `f` maps what the name stands for to what it is to stand
for.  A new entry comes last. -/
def alterEntries (name : Name) (f : Option Node → Option Node) :
    List (Name × Node) → List (Name × Node)
  | [] =>
    match f none with
    | none => []
    | some c => [(name, c)]
  | (k, c) :: es =>
    if k = name then
      match f (some c) with
      | none => es
      | some c' => (k, c') :: es
    else (k, c) :: alterEntries name f es

/-- The node with the place at the end of a list of names changed.  Nothing changes if the place
before the last is not a directory. -/
def alter : List Name → (Option Node → Option Node) → Option Node → Option Node
  | [], f, o => f o
  | x :: rest, f, some (.dir l es) => some (.dir l (alterEntries x (alter rest f) es))
  | _ :: _, _, o => o

mutual

/-- Takes the entries out of a directory one by one, in their order, those of the directories among
them first, and stops at the first that stays.  Whether all are gone, and what is left. -/
def strip : Node → Bool × Node
  | .dir access es =>
    if access.listable then
      let (done, rest) := stripEntries access.writable es
      (done, .dir access rest)
    else (false, .dir access es)
  | n => (true, n)

/-- Takes entries out of a directory; if it is not writable, none of them goes. -/
def stripEntries (writable : Bool) : List (Name × Node) → Bool × List (Name × Node)
  | [] => (true, [])
  | (x, c) :: es =>
    let (done, rest) := c.strip
    if done && writable then stripEntries writable es else (false, (x, rest) :: es)

end

mutual

/-- No directory below a node, itself included, has two entries of one name. -/
def Distinct : Node → Prop
  | .dir _ es => DistinctEntries es
  | _ => True

/-- No name occurs twice in a list of entries, nor in any directory below them. -/
def DistinctEntries : List (Name × Node) → Prop
  | [] => True
  | (n, c) :: es => n ∉ es.map (·.1) ∧ c.Distinct ∧ DistinctEntries es

end

theorem distinct_file (d : FileData) : (Node.file d).Distinct := trivial

theorem distinct_emptyDir : emptyDir.Distinct := trivial

theorem strip_dir (access : Access) (es : List (Name × Node)) :
    (Node.dir access es).strip =
      if access.listable then ((stripEntries access.writable es).1,
        .dir access (stripEntries access.writable es).2)
      else (false, .dir access es) := by
  rw [strip]

theorem stripEntries_cons (writable : Bool) (x : Name) (c : Node) (es : List (Name × Node)) :
    stripEntries writable ((x, c) :: es) =
      if c.strip.1 && writable then stripEntries writable es
      else (false, (x, c.strip.2) :: es) := by
  rw [stripEntries]

/-! ### Distinct names stay distinct -/

theorem mem_alterEntries {x n : Name} {f : Option Node → Option Node} {es : List (Name × Node)}
    (h : n ∈ (alterEntries x f es).map (·.1)) : n = x ∨ n ∈ es.map (·.1) := by
  induction es with
  | nil =>
    rw [alterEntries] at h
    split at h
    · cases h
    · exact .inl (by simpa using h)
  | cons p es ih =>
    obtain ⟨k, c⟩ := p
    rw [alterEntries] at h
    split at h
    · split at h
      · exact .inr (List.mem_cons_of_mem _ h)
      · exact .inr h
    · rw [List.map_cons, List.mem_cons] at h ⊢
      rcases h with rfl | h
      · exact .inr (.inl rfl)
      · exact (ih h).imp_right .inr

theorem distinct_alterEntries {x : Name} {f : Option Node → Option Node}
    {es : List (Name × Node)}
    (hf : ∀ o : Option Node, (∀ c ∈ o, c.Distinct) → ∀ c ∈ f o, c.Distinct)
    (h : DistinctEntries es) : DistinctEntries (alterEntries x f es) := by
  induction es with
  | nil =>
    rw [alterEntries]
    split
    · exact h
    · next c hc => exact ⟨by simp, hf none (by simp) c (by simp [hc]), h⟩
  | cons p es ih =>
    obtain ⟨k, c⟩ := p
    obtain ⟨h1, h2, h3⟩ := h
    rw [alterEntries]
    split
    · split
      · exact h3
      · next c' hc => exact ⟨h1, hf (some c) (by simpa using h2) c' (by simp [hc]), h3⟩
    · next hk =>
      refine ⟨fun hm => ?_, h2, ih h3⟩
      rcases mem_alterEntries hm with h | h
      · exact hk h
      · exact h1 h

/-- **Changing one place keeps names distinct.** -/
theorem distinct_alter {p : List Name} {f : Option Node → Option Node}
    (hf : ∀ o : Option Node, (∀ c ∈ o, c.Distinct) → ∀ c ∈ f o, c.Distinct) :
    ∀ o : Option Node, (∀ c ∈ o, c.Distinct) → ∀ c ∈ alter p f o, c.Distinct := by
  induction p with
  | nil => intro o h; rw [alter]; exact hf o h
  | cons x rest ih =>
    intro o h c hc
    cases o with
    | none => simp [alter] at hc
    | some n =>
      cases n with
      | dir l es =>
        simp only [alter, Option.mem_def, Option.some.injEq] at hc
        subst hc
        have := h _ rfl
        simp only [Distinct] at this ⊢
        exact distinct_alterEntries ih this
      | file d =>
        simp only [alter, Option.mem_def, Option.some.injEq] at hc
        subst hc; exact h _ rfl
      | link d =>
        simp only [alter, Option.mem_def, Option.some.injEq] at hc
        subst hc; exact h _ rfl

mutual

/-- **Taking entries out keeps names distinct.** -/
theorem distinct_strip : ∀ {n : Node}, n.Distinct → n.strip.2.Distinct
  | .file _, _ => trivial
  | .link _, _ => trivial
  | .dir access es, h => by
    rw [strip_dir]
    split
    · exact (distinct_stripEntries access.writable h).2
    · exact h

theorem distinct_stripEntries (writable : Bool) : ∀ {es : List (Name × Node)},
    DistinctEntries es → (stripEntries writable es).2.map (·.1) ⊆ es.map (·.1) ∧
      DistinctEntries (stripEntries writable es).2
  | [], h => ⟨List.Subset.refl _, h⟩
  | (x, c) :: es, ⟨hx, hc, hes⟩ => by
    rw [stripEntries_cons]
    split
    · obtain ⟨hsub, hdistinct⟩ := distinct_stripEntries writable hes
      exact ⟨List.subset_cons_of_subset _ hsub, hdistinct⟩
    · exact ⟨List.Subset.refl _, hx, distinct_strip hc, hes⟩

end

theorem distinct_of_lookup {es : List (Name × Node)} {x : Name} {c : Node}
    (h : DistinctEntries es) (hc : es.lookup x = some c) : c.Distinct := by
  induction es with
  | nil => simp at hc
  | cons p es ih =>
    obtain ⟨k, d⟩ := p
    rw [List.lookup_cons] at hc
    split at hc
    · simp only [Option.some.injEq] at hc
      exact hc ▸ h.2.1
    · exact ih h.2.2 hc

/-- What stands in a tree of distinct names is such a tree. -/
theorem distinct_of_get? {p : List Name} : ∀ {n m : Node}, n.Distinct → n.get? p = some m →
    m.Distinct := by
  induction p with
  | nil =>
    intro n m h hm
    cases n <;> simp only [get?, Option.some.injEq] at hm <;> exact hm ▸ h
  | cons x rest ih =>
    intro n m h hm
    cases n with
    | dir l es =>
      rw [get?, Option.bind_eq_some_iff] at hm
      obtain ⟨c, hc, hm⟩ := hm
      exact ih (distinct_of_lookup h hc) hm
    | file d => simp [get?] at hm
    | link d => simp [get?] at hm

end Node

end SuiteGate
