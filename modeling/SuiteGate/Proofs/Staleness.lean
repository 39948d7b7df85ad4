import SuiteGate.Proofs.Disk.Walks
import SuiteGate.Staleness
/-!
# Verdicts on trees

What a staleness check says, in terms of what is reached from the sources and the outputs.  Files
and links to files have stamps (`HasStamp`); a tree with a directory that cannot be listed or a
link that leads nowhere is broken (`Broken`).  Neither notion mentions an order of entries.

The headline is `check_spec`: when a check fails, which verdict it gives otherwise, that the stamps
it names are extremal, and that nothing but the path of a stamp depends on the order in which
directories are listed.  A walk gives the stamps (`stamps_spec`), and a fold over them the newest
and the oldest (`latest_spec`, `earliest_spec`).
-/

namespace SuiteGate.Staleness

/-- Files reached from a path, and links to files, have stamps; a link has the time of the file. -/
inductive HasStamp (d : Disk) (cwd : List Name) (root : Path) : Stamp → Prop
  | file {rel : List Name} {data : FileData} : d.Reaches cwd root rel (.file data) →
    HasStamp d cwd root ⟨root.below rel, data.modified⟩
  | link {rel : List Name} {target : Path} {data : FileData} :
    d.Reaches cwd root rel (.link target) → d.stat cwd (root.below rel) = .ok (.file data) →
      HasStamp d cwd root ⟨root.below rel, data.modified⟩

/-- A tree is broken if a directory cannot be listed or a link leads nowhere. -/
inductive Broken (d : Disk) (cwd : List Name) (root : Path) : Prop
  | unlistable {rel : List Name} {w : Bool} {es : List (Name × Node)} :
    d.Reaches cwd root rel (.dir ⟨false, w⟩ es) → Broken d cwd root
  | dangling {rel : List Name} {target : Path} : d.Reaches cwd root rel (.link target) →
    d.pathExists cwd (root.below rel) = false → Broken d cwd root

/-! ### The stamps of a walk -/

section

variable {d : Disk} {cwd : List Name}

/-- The stamps of a walk, item by item. -/
theorem stampsOf_spec (d : Disk) (cwd : List Name) (w : Walk) :
    ((∃ e, stampsOf d cwd w = .error e) ↔ ∃ i ∈ w, ∃ e, stampOf d cwd i = .error e) ∧
      ∀ ss, stampsOf d cwd w = .ok ss → ∀ s, s ∈ ss ↔ ∃ i ∈ w, stampOf d cwd i = .ok (some s) := by
  induction w with
  | nil =>
    refine ⟨by simp [stampsOf], fun ss h s => ?_⟩
    obtain rfl : [] = ss := by simpa [stampsOf] using h
    simp
  | cons i w ih =>
    obtain ⟨ih1, ih2⟩ := ih
    rw [stampsOf]
    cases hi : stampOf d cwd i with
    | error e =>
      -- the first error is the result
      refine ⟨⟨fun _ => ⟨i, List.mem_cons_self .., e, hi⟩, fun _ => ⟨e, rfl⟩⟩, fun ss h => ?_⟩
      simp [bind, Except.bind] at h
    | ok o =>
      cases hw : stampsOf d cwd w with
      | error e =>
        refine ⟨⟨fun _ => ?_, fun _ => ⟨e, rfl⟩⟩, fun ss h => by simp [bind, Except.bind] at h⟩
        obtain ⟨j, hj, he⟩ := ih1.mp ⟨e, hw⟩
        exact ⟨j, List.mem_cons_of_mem _ hj, he⟩
      | ok rest =>
        refine ⟨⟨by simp [bind, Except.bind, pure, Except.pure], ?_⟩, fun ss h s => ?_⟩
        · rintro ⟨j, hj, e, he⟩
          rcases List.mem_cons.mp hj with rfl | hj
          · simp [hi] at he
          · obtain ⟨e', he'⟩ := ih1.mpr ⟨j, hj, e, he⟩
            simp [hw] at he'
        · obtain rfl : o.toList ++ rest = ss := by
            simpa [bind, Except.bind, pure, Except.pure] using h
          rw [List.mem_append, ih2 rest hw]
          simp only [List.mem_cons, exists_eq_or_imp, hi, Except.ok.injEq]
          rw [Option.mem_toList]

theorem error_itemsAt_iff {path : Path} {names : List Name} {n : Node} :
    (∃ i ∈ n.itemsAt path names, ∃ e, stampOf d cwd i = .error e) ↔
      (∃ w, n.kind = .dir ⟨false, w⟩) ∨
        (∃ target, n = .link target) ∧ d.pathExists cwd path = false := by
  cases n with
  | dir l es => rcases l with ⟨- | -, w⟩ <;> simp [Node.itemsAt, stampOf, Node.kind]
  | file data => simp [Node.itemsAt, stampOf, Node.kind]
  | link target =>
    rw [← Disk.stat_eq_error_iff]
    simp only [Node.itemsAt, List.mem_singleton, exists_eq_left, stampOf, Node.kind, reduceCtorEq,
      Node.link.injEq, exists_eq', true_and]
    cases d.stat cwd path with
    | error e => simp
    | ok n => cases n <;> simp

theorem stamp_itemsAt_iff {path : Path} {names : List Name} {n : Node} {s : Stamp} :
    (∃ i ∈ n.itemsAt path names, stampOf d cwd i = .ok (some s)) ↔
      ∃ data : FileData, s = ⟨path, data.modified⟩ ∧
        (n = .file data ∨ (∃ target, n = .link target) ∧ d.stat cwd path = .ok (.file data)) := by
  cases n with
  | dir l es => rcases l with ⟨- | -, w⟩ <;> simp [Node.itemsAt, stampOf]
  | file data =>
    simp only [Node.itemsAt, List.mem_singleton, exists_eq_left, stampOf, Except.ok.injEq,
      Option.some.injEq, Node.file.injEq, reduceCtorEq, exists_false, false_and, or_false]
    exact ⟨fun h => ⟨data, h.symm, rfl⟩, fun ⟨data', h, hd⟩ => by rw [h, hd]⟩
  | link target =>
    simp only [Node.itemsAt, List.mem_singleton, exists_eq_left, stampOf, reduceCtorEq, false_or,
      Node.link.injEq, exists_eq', true_and]
    cases d.stat cwd path with
    | error e => simp
    | ok m =>
      cases m with
      | file data =>
        simp only [Except.ok.injEq, Option.some.injEq, Node.file.injEq]
        exact ⟨fun h => ⟨data, h.symm, rfl⟩, fun ⟨data', h, hd⟩ => by rw [h, hd]⟩
      | link t => simp
      | dir l es => simp

/-! ### The stamps of a tree -/

variable {root : Path} {top : Node}

theorem broken_iff_of_stat (h : d.stat cwd root = .ok top) :
    (∃ i ∈ top.walk root [], ∃ e, stampOf d cwd i = .error e) ↔ Broken d cwd root := by
  constructor
  · rintro ⟨i, hi, he⟩
    obtain ⟨rel, m, hm, hi⟩ := (Node.mem_walk_iff top (Disk.distinct_of_stat h)).mp hi
    rcases error_itemsAt_iff.mp ⟨i, hi, he⟩ with ⟨w, hdir⟩ | ⟨⟨target, rfl⟩, hnone⟩
    · obtain ⟨es, rfl⟩ := Node.kind_eq_dir_iff.mp hdir
      exact .unlistable ⟨top, h, hm⟩
    · exact .dangling ⟨top, h, hm⟩ hnone
  · have key : ∀ rel m, top.Holds rel m →
        ((∃ w, m.kind = .dir ⟨false, w⟩) ∨
          (∃ target, m = .link target) ∧ d.pathExists cwd (root.below rel) = false) →
        ∃ i ∈ top.walk root [], ∃ e, stampOf d cwd i = .error e := by
      intro rel m hm hbad
      obtain ⟨i, hi, he⟩ : ∃ i ∈ m.itemsAt (root.below rel) ([] ++ rel),
          ∃ e, stampOf d cwd i = .error e := error_itemsAt_iff.mpr hbad
      exact ⟨i, (Node.mem_walk_iff top (Disk.distinct_of_stat h)).mpr ⟨rel, m, hm, hi⟩, he⟩
    rintro (⟨⟨top', htop, hm⟩⟩ | ⟨⟨top', htop, hm⟩, hnone⟩)
    · obtain rfl : top = top' := by simpa [h] using htop
      exact key _ _ hm (.inl ⟨_, rfl⟩)
    · obtain rfl : top = top' := by simpa [h] using htop
      exact key _ _ hm (.inr ⟨⟨_, rfl⟩, hnone⟩)

theorem hasStamp_iff_of_stat (h : d.stat cwd root = .ok top) {s : Stamp} :
    (∃ i ∈ top.walk root [], stampOf d cwd i = .ok (some s)) ↔ HasStamp d cwd root s := by
  constructor
  · rintro ⟨i, hi, hs⟩
    obtain ⟨rel, m, hm, hi⟩ := (Node.mem_walk_iff top (Disk.distinct_of_stat h)).mp hi
    obtain ⟨data, rfl, rfl | ⟨⟨target, rfl⟩, hstat⟩⟩ := stamp_itemsAt_iff.mp ⟨i, hi, hs⟩
    · exact .file ⟨top, h, hm⟩
    · exact .link ⟨top, h, hm⟩ hstat
  · have key : ∀ rel m (data : FileData), top.Holds rel m →
        (m = .file data ∨
          (∃ target, m = .link target) ∧ d.stat cwd (root.below rel) = .ok (.file data)) →
        ∃ i ∈ top.walk root [],
          stampOf d cwd i = .ok (some ⟨root.below rel, data.modified⟩) := by
      intro rel m data hm hfile
      obtain ⟨i, hi, hs⟩ : ∃ i ∈ m.itemsAt (root.below rel) ([] ++ rel),
          stampOf d cwd i = .ok (some ⟨root.below rel, data.modified⟩) :=
        stamp_itemsAt_iff.mpr ⟨data, rfl, hfile⟩
      exact ⟨i, (Node.mem_walk_iff top (Disk.distinct_of_stat h)).mpr ⟨rel, m, hm, hi⟩, hs⟩
    rintro (⟨⟨top', htop, hm⟩⟩ | ⟨⟨top', htop, hm⟩, hstat⟩)
    · obtain rfl : top = top' := by simpa [h] using htop
      exact key _ _ _ hm (.inl rfl)
    · obtain rfl : top = top' := by simpa [h] using htop
      exact key _ _ _ hm (.inr ⟨⟨_, rfl⟩, hstat⟩)

/-- A walk gives the errors and stamps of what its path leads to, also through a link. -/
theorem exists_mem_walk_iff (h : d.stat cwd root = .ok top)
    {P : Except StalenessError (Option Stamp) → Prop} (hP : ¬ P (.ok none)) :
    (∃ i ∈ d.walk cwd root, P (stampOf d cwd i)) ↔
      ∃ i ∈ top.walk root [], P (stampOf d cwd i) := by
  obtain ⟨m, hm, hsame⟩ := Disk.exists_lstat_of_stat h
  cases m with
  | file data =>
    obtain rfl := hsame rfl
    rw [Disk.walk, Disk.walkWith, hm]
  | dir l es =>
    obtain rfl := hsame rfl
    rw [Disk.walk, Disk.walkWith, hm]
  | link target =>
    rw [Disk.walk, Disk.walkWith, hm]
    simp only [h]
    cases top with
    | file data => simp [Node.walk, stampOf, h]
    | link target' => simp [Node.walk, stampOf, h]
    | dir l es =>
      -- neither the link nor the directory counts as a file
      have hhead : ∃ rest, (Node.dir l es).walk root [] = .ok ⟨root, [], .dir l es⟩ :: rest := by
        obtain ⟨- | -, w⟩ := l <;> exact ⟨_, rfl⟩
      obtain ⟨rest, hrest⟩ := hhead
      simp [hrest, stampOf, h, hP]

/-- **The stamps of a tree,** or an error if it is missing or broken. -/
theorem stamps_spec (d : Disk) (cwd : List Name) (root : Path) :
    ((∃ e, stamps d cwd root = .error e) ↔
        d.pathExists cwd root = false ∨ Broken d cwd root) ∧
      ∀ ss, stamps d cwd root = .ok ss → ∀ s, s ∈ ss ↔ HasStamp d cwd root s := by
  obtain ⟨herror, hok⟩ := stampsOf_spec d cwd (d.walk cwd root)
  cases hroot : d.stat cwd root with
  | error e =>
    -- the walk of a missing root is a single error
    have hmissing : d.pathExists cwd root = false := Disk.stat_eq_error_iff.mp ⟨e, hroot⟩
    have hfault : ∃ e, stamps d cwd root = .error e := by
      refine herror.mpr ⟨.error ⟨root, ?_⟩, ?_, _, rfl⟩
      · exact match d.lstat cwd root with
          | .error e => e
          | .ok _ => e
      · rw [Disk.walk, Disk.walkWith]
        cases hl : d.lstat cwd root with
        | error e' => simp
        | ok m =>
          cases m with
          | link target => simp [hroot]
          | file data => simp [Disk.stat_of_lstat hl rfl] at hroot
          | dir l es => simp [Disk.stat_of_lstat hl rfl] at hroot
    refine ⟨⟨fun _ => .inl hmissing, fun _ => hfault⟩, fun ss hss => ?_⟩
    obtain ⟨e', he'⟩ := hfault
    simp [he'] at hss
  | ok top =>
    have hexists : d.pathExists cwd root = true := Disk.pathExists_iff.mpr ⟨top, hroot⟩
    have h1 := exists_mem_walk_iff hroot (P := fun r => ∃ e, r = .error e) (by simp)
    constructor
    · rw [stamps, herror, h1, broken_iff_of_stat hroot, hexists]
      simp
    · intro ss hss s
      have h2 := exists_mem_walk_iff hroot (P := fun r => r = .ok (some s)) (by simp)
      rw [hok ss hss, h2, hasStamp_iff_of_stat hroot]

end

/-! ### The newest and the oldest -/

theorem isBetter_self (isBetter : Instant → Instant → Bool)
    (hasymm : ∀ s t, isBetter s t = true → isBetter t s = false) (s : Instant) :
    isBetter s s = false := by
  cases h : isBetter s s with
  | false => rfl
  | true => exact absurd (hasymm s s h) (by simp [h])

/-- The better one of the best stamp so far and the next one. -/
theorem exists_better_eq (isBetter : Instant → Instant → Bool)
    (hasymm : ∀ s t, isBetter s t = true → isBetter t s = false) (best : Option Stamp)
    (t : Stamp) :
    ∃ s, better isBetter best t = some s ∧ (s = t ∨ best = some s) ∧
      isBetter t.modified s.modified = false ∧
      ∀ b, best = some b → isBetter b.modified s.modified = false := by
  have hself := isBetter_self isBetter hasymm
  cases best with
  | none => exact ⟨t, rfl, .inl rfl, hself _, by simp⟩
  | some b =>
    rw [better]
    cases hbt : isBetter t.modified b.modified with
    | true => exact ⟨t, rfl, .inl rfl, hself _, by simpa using hasymm _ _ hbt⟩
    | false => exact ⟨b, rfl, .inr rfl, hbt, by simpa using hself _⟩

/-- The first of the best stamps, where no two stamps are each better than the other and what is
not beaten by a stamp is not beaten by a worse one. -/
theorem foldl_better_spec (isBetter : Instant → Instant → Bool)
    (hasymm : ∀ s t, isBetter s t = true → isBetter t s = false)
    (htrans : ∀ s t u, isBetter s t = false → isBetter t u = false → isBetter s u = false)
    (ss : List Stamp) (best : Option Stamp) :
    (ss.foldl (better isBetter) best = none ↔ ss = [] ∧ best = none) ∧
      ∀ s, ss.foldl (better isBetter) best = some s →
        (s ∈ ss ∨ best = some s) ∧
          (∀ t ∈ ss, isBetter t.modified s.modified = false) ∧
          ∀ b, best = some b → isBetter b.modified s.modified = false := by
  have hself : ∀ s, isBetter s s = false := isBetter_self isBetter hasymm
  induction ss generalizing best with
  | nil =>
    refine ⟨by simp, fun s hs => ?_⟩
    obtain rfl : best = some s := by simpa using hs
    refine ⟨.inr rfl, by simp, fun b hb => ?_⟩
    obtain rfl : s = b := by simpa using hb
    exact hself _
  | cons t ss ih =>
    obtain ⟨b', hb', hor, hbest⟩ := exists_better_eq isBetter hasymm best t
    obtain ⟨hnone, hsome⟩ := ih (some b')
    rw [List.foldl_cons, hb']
    refine ⟨by simp [hnone], fun s hs => ?_⟩
    obtain ⟨hmem, hss, hb⟩ := hsome s hs
    have hbs := hb b' rfl
    refine ⟨?_, fun u hu => ?_, fun b hb => htrans _ _ _ (hbest.2 b hb) hbs⟩
    · rcases hmem with hmem | hmem
      · exact .inl (List.mem_cons_of_mem _ hmem)
      · obtain rfl : b' = s := by simpa using hmem
        rcases hor with rfl | hor
        · exact .inl (List.mem_cons_self ..)
        · exact .inr hor
    · rcases List.mem_cons.mp hu with rfl | hu
      · exact htrans _ _ _ hbest.1 hbs
      · exact hss u hu

theorem latest_spec (ss : List Stamp) :
    (latest ss = none ↔ ss = []) ∧
      ∀ s, latest ss = some s → s ∈ ss ∧ ∀ t ∈ ss, s.modified.isBefore t.modified = false := by
  obtain ⟨hnone, hsome⟩ := foldl_better_spec (fun new best => best.isBefore new)
    (by simp only [Instant.isBefore, decide_eq_true_eq, decide_eq_false_iff_not]; omega)
    (by simp only [Instant.isBefore, decide_eq_false_iff_not]; omega) ss none
  refine ⟨by simpa [latest] using hnone, fun s hs => ?_⟩
  obtain ⟨hmem, hall, -⟩ := hsome s hs
  exact ⟨by simpa using hmem, hall⟩

theorem earliest_spec (ss : List Stamp) :
    (earliest ss = none ↔ ss = []) ∧
      ∀ s, earliest ss = some s → s ∈ ss ∧ ∀ t ∈ ss, t.modified.isBefore s.modified = false := by
  obtain ⟨hnone, hsome⟩ := foldl_better_spec (fun new best => new.isBefore best)
    (by simp only [Instant.isBefore, decide_eq_true_eq, decide_eq_false_iff_not]; omega)
    (by simp only [Instant.isBefore, decide_eq_false_iff_not]; omega) ss none
  refine ⟨by simpa [earliest] using hnone, fun s hs => ?_⟩
  obtain ⟨hmem, hall, -⟩ := hsome s hs
  exact ⟨by simpa using hmem, hall⟩

/-! ### Other disks -/

theorem HasStamp.of_within {d' d : Disk} {cwd : List Name} {root : Path} {s : Stamp}
    (h : d'.Within d) (hs : HasStamp d' cwd root s) : HasStamp d cwd root s := by
  cases hs with
  | file hr =>
    obtain ⟨n, hn, hk⟩ := hr.of_within h
    obtain rfl := Node.kind_eq_file_iff.mp hk
    exact .file hn
  | link hr hstat =>
    obtain ⟨n, hn, hk⟩ := hr.of_within h
    obtain rfl := Node.kind_eq_link_iff.mp hk
    obtain ⟨m, hm, hmk⟩ := Disk.stat_of_within h hstat
    obtain rfl := Node.kind_eq_file_iff.mp hmk
    exact .link hn hm

section

variable {d d' : Disk} {cwd : List Name} {root : Path}

theorem hasStamp_congr (h : d.SameTree d') {s : Stamp} :
    HasStamp d' cwd root s ↔ HasStamp d cwd root s :=
  ⟨fun hs => hs.of_within h.within, fun hs => hs.of_within h.symm.within⟩

theorem pathExists_congr (h : d.SameTree d') :
    d'.pathExists cwd root = d.pathExists cwd root :=
  Bool.eq_iff_iff.mpr
    ⟨Disk.pathExists_of_within h.within, Disk.pathExists_of_within h.symm.within⟩

theorem Broken.of_sameTree (h : d.SameTree d') (hb : Broken d' cwd root) : Broken d cwd root := by
  cases hb with
  | unlistable hr =>
    obtain ⟨n, hn, hk⟩ := hr.of_within h.within
    obtain ⟨es, rfl⟩ := Node.kind_eq_dir_iff.mp hk
    exact .unlistable hn
  | dangling hr hnone =>
    obtain ⟨n, hn, hk⟩ := hr.of_within h.within
    obtain rfl := Node.kind_eq_link_iff.mp hk
    exact .dangling hn ((pathExists_congr h).symm.trans hnone)

theorem broken_congr (h : d.SameTree d') : Broken d' cwd root ↔ Broken d cwd root :=
  ⟨.of_sameTree h, .of_sameTree h.symm⟩

end

/-! ### Verdicts -/

section

variable (d : Disk) (cwd : List Name)

/-- A check fails if there are no sources, or one of the trees is broken. -/
def Unreadable (source output : Path) : Prop :=
  d.pathExists cwd source = false ∨ Broken d cwd source ∨
    d.pathExists cwd output = true ∧ Broken d cwd output

/-- No stamp of a tree is newer. -/
def IsNewest (root : Path) (s : Stamp) : Prop :=
  HasStamp d cwd root s ∧ ∀ t, HasStamp d cwd root t → s.modified.isBefore t.modified = false

/-- No stamp of a tree is older. -/
def IsOldest (root : Path) (s : Stamp) : Prop :=
  HasStamp d cwd root s ∧ ∀ t, HasStamp d cwd root t → t.modified.isBefore s.modified = false

/-- Some output is older than some source. -/
def Outdated (source output : Path) : Prop :=
  ∃ s o, HasStamp d cwd source s ∧ HasStamp d cwd output o ∧
    o.modified.isBefore s.modified = true

end

/-- Two outcomes of a check are the same but for the error, or the paths of the stamps. -/
inductive SameOutcome : Except StalenessError Verdict → Except StalenessError Verdict → Prop
  | error (e e' : StalenessError) : SameOutcome (.error e) (.error e')
  | noOutput (dir : Path) : SameOutcome (.ok (.noOutput dir)) (.ok (.noOutput dir))
  | outdated {s s' o o' : Stamp} : s.modified = s'.modified → o.modified = o'.modified →
    SameOutcome (.ok (.outdated s o)) (.ok (.outdated s' o'))
  | upToDate : SameOutcome (.ok .upToDate) (.ok .upToDate)

section

variable {d : Disk} {cwd : List Name} {source output root : Path}

/-- The best stamp of a tree, for a way to pick it from a list. -/
theorem map_stamps_spec {pick : List Stamp → Option Stamp} {Best : Stamp → Stamp → Prop}
    (hpick : ∀ ss, (pick ss = none ↔ ss = []) ∧
      ∀ s, pick ss = some s → s ∈ ss ∧ ∀ t ∈ ss, Best s t) :
    ((∃ e, (stamps d cwd root).map pick = .error e) ↔
        d.pathExists cwd root = false ∨ Broken d cwd root) ∧
      ∀ best, (stamps d cwd root).map pick = .ok best →
        (best = none → ∀ s, ¬ HasStamp d cwd root s) ∧
          ∀ s, best = some s → HasStamp d cwd root s ∧ ∀ t, HasStamp d cwd root t → Best s t := by
  obtain ⟨herror, hok⟩ := stamps_spec d cwd root
  cases hss : stamps d cwd root with
  | error e => simp [Except.map, ← herror, hss]
  | ok ss =>
    obtain ⟨hnone, hsome⟩ := hpick ss
    have hmem := hok ss hss
    refine ⟨by simp [Except.map, ← herror, hss], fun best h => ?_⟩
    obtain rfl : pick ss = best := by simpa [Except.map] using h
    refine ⟨fun h s hs => ?_, fun s h => ⟨(hmem s).mp (hsome s h).1, fun t ht => ?_⟩⟩
    · rw [hnone] at h
      simpa [h] using (hmem s).mpr hs
    · exact (hsome s h).2 t ((hmem t).mpr ht)

theorem newestFile_spec (d : Disk) (cwd : List Name) (root : Path) :
    ((∃ e, newestFile d cwd root = .error e) ↔
        d.pathExists cwd root = false ∨ Broken d cwd root) ∧
      ∀ newest, newestFile d cwd root = .ok newest →
        (newest = none → ∀ s, ¬ HasStamp d cwd root s) ∧
          ∀ s, newest = some s → IsNewest d cwd root s :=
  map_stamps_spec latest_spec

theorem oldestFile_spec (d : Disk) (cwd : List Name) (root : Path) :
    ((∃ e, oldestFile d cwd root = .error e) ↔
        d.pathExists cwd root = false ∨ Broken d cwd root) ∧
      ∀ oldest, oldestFile d cwd root = .ok oldest →
        (oldest = none → ∀ s, ¬ HasStamp d cwd root s) ∧
          ∀ s, oldest = some s → IsOldest d cwd root s :=
  map_stamps_spec earliest_spec

theorem not_hasStamp_of_missing (h : d.pathExists cwd root = false) (s : Stamp) :
    ¬ HasStamp d cwd root s := by
  have key : ∀ rel n, ¬ d.Reaches cwd root rel n := by
    rintro rel n ⟨top, htop, -⟩
    have := Disk.pathExists_iff.mpr ⟨top, htop⟩
    simp [h] at this
  rintro (hr | ⟨hr, -⟩)
  · exact key _ _ hr
  · exact key _ _ hr

/-- A check fails, or judges the newest source and the oldest output. -/
theorem check_cases (d : Disk) (cwd : List Name) (source output : Path) :
    (Unreadable d cwd source output ∧ ∃ e, check d cwd source output = .error e) ∨
      ¬ Unreadable d cwd source output ∧ ∃ newest oldest,
        check d cwd source output = .ok (judge output newest oldest) ∧
          ((newest = none → ∀ s, ¬ HasStamp d cwd source s) ∧
            ∀ s, newest = some s → IsNewest d cwd source s) ∧
          (oldest = none → ∀ s, ¬ HasStamp d cwd output s) ∧
            ∀ s, oldest = some s → IsOldest d cwd output s := by
  obtain ⟨hserror, hsok⟩ := newestFile_spec d cwd source
  obtain ⟨hoerror, hook⟩ := oldestFile_spec d cwd output
  rw [check]
  cases hs : newestFile d cwd source with
  | error e =>
    refine .inl ⟨?_, e, rfl⟩
    rcases hserror.mp ⟨e, hs⟩ with h | h
    · exact .inl h
    · exact .inr (.inl h)
  | ok newest =>
    have hread := mt hserror.mpr (by simp [hs])
    obtain ⟨hexists, hsound⟩ := not_or.mp hread
    cases hout : d.pathExists cwd output with
    | false =>
      -- a missing output root counts as one without files
      refine .inr ⟨?_, newest, none, rfl, hsok newest hs, fun _ => not_hasStamp_of_missing hout,
        by simp⟩
      rintro (h | h | ⟨h, -⟩)
      · exact hexists h
      · exact hsound h
      · simp [hout] at h
    | true =>
      cases ho : oldestFile d cwd output with
      | error e =>
        refine .inl ⟨.inr (.inr ⟨hout, ?_⟩), e, by simp [bind, Except.bind]⟩
        rcases hoerror.mp ⟨e, ho⟩ with h | h
        · simp [hout] at h
        · exact h
      | ok oldest =>
        refine .inr ⟨?_, newest, oldest, by simp [bind, Except.bind, pure, Except.pure],
          hsok newest hs, hook oldest ho⟩
        rintro (h | h | ⟨-, h⟩)
        · exact hexists h
        · exact hsound h
        · exact (mt hoerror.mpr (by simp [ho])) (.inr h)

/-- No output is older than a source if the oldest is not older than the newest. -/
theorem outdated_iff {s o : Stamp} (hs : IsNewest d cwd source s) (ho : IsOldest d cwd output o) :
    Outdated d cwd source output ↔ o.modified.isBefore s.modified = true := by
  refine ⟨?_, fun h => ⟨s, o, hs.1, ho.1, h⟩⟩
  rintro ⟨t, u, ht, hu, h⟩
  have h1 := hs.2 t ht
  have h2 := ho.2 u hu
  simp only [Instant.isBefore, decide_eq_true_eq, decide_eq_false_iff_not] at h h1 h2 ⊢
  omega

/-- The four outcomes of a check, and what each says. -/
theorem check_outcomes (d : Disk) (cwd : List Name) (source output : Path) :
    (Unreadable d cwd source output ∧ ∃ e, check d cwd source output = .error e) ∨
      ¬ Unreadable d cwd source output ∧
        ((check d cwd source output = .ok (.noOutput output) ∧
            ∀ o, ¬ HasStamp d cwd output o) ∨
          (∃ s o, check d cwd source output = .ok (.outdated s o) ∧
            IsNewest d cwd source s ∧ IsOldest d cwd output o ∧
              Outdated d cwd source output) ∨
          check d cwd source output = .ok .upToDate ∧ (∃ o, HasStamp d cwd output o) ∧
            ¬ Outdated d cwd source output) := by
  rcases check_cases d cwd source output with
    h | ⟨hread, newest, oldest, hcheck, ⟨hsnone, hsome⟩, honone, hosome⟩
  · exact .inl h
  refine .inr ⟨hread, ?_⟩
  rw [hcheck]
  cases oldest with
  | none => exact .inl ⟨by rw [judge], honone rfl⟩
  | some o =>
    have ho := hosome o rfl
    cases newest with
    | none =>
      refine .inr (.inr ⟨rfl, ⟨o, ho.1⟩, ?_⟩)
      rintro ⟨s, -, hs, -⟩
      exact hsnone rfl s hs
    | some s =>
      have hs := hsome s rfl
      rw [judge]
      cases hlt : o.modified.isBefore s.modified with
      | true => exact .inr (.inl ⟨s, o, rfl, hs, ho, (outdated_iff hs ho).mpr hlt⟩)
      | false =>
        refine .inr (.inr ⟨rfl, ⟨o, ho.1⟩, ?_⟩)
        rw [outdated_iff hs ho, hlt]
        simp

theorem exists_check_eq_error_iff :
    (∃ e, check d cwd source output = .error e) ↔ Unreadable d cwd source output := by
  rcases check_outcomes d cwd source output with
    ⟨hu, he⟩ | ⟨hu, ⟨hv, -⟩ | ⟨s, o, hv, -⟩ | ⟨hv, -⟩⟩
  · exact ⟨fun _ => hu, fun _ => he⟩
  all_goals exact ⟨by simp [hv], fun h => absurd h hu⟩

theorem check_eq_noOutput_iff {dir : Path} :
    check d cwd source output = .ok (.noOutput dir) ↔
      dir = output ∧ ¬ Unreadable d cwd source output ∧ ∀ o, ¬ HasStamp d cwd output o := by
  rcases check_outcomes d cwd source output with
    ⟨hu, e, he⟩ | ⟨hu, ⟨hv, hn⟩ | ⟨s, o, hv, -, ho, -⟩ | ⟨hv, ⟨o, ho⟩, -⟩⟩
  · exact ⟨by simp [he], fun h => absurd hu h.2.1⟩
  · rw [hv]
    exact ⟨fun h => ⟨by simpa [eq_comm] using h, hu, hn⟩, fun h => by rw [h.1]⟩
  · exact ⟨by simp [hv], fun h => absurd ho.1 (h.2.2 o)⟩
  · exact ⟨by simp [hv], fun h => absurd ho (h.2.2 o)⟩

theorem exists_check_eq_outdated_iff :
    (∃ s o, check d cwd source output = .ok (.outdated s o)) ↔
      ¬ Unreadable d cwd source output ∧ Outdated d cwd source output := by
  rcases check_outcomes d cwd source output with
    ⟨hu, e, he⟩ | ⟨hu, ⟨hv, hn⟩ | ⟨s, o, hv, -, -, hold⟩ | ⟨hv, -, hold⟩⟩
  · exact ⟨by simp [he], fun h => absurd hu h.1⟩
  · exact ⟨by simp [hv], fun ⟨_, s, o, _, ho, _⟩ => absurd ho (hn o)⟩
  · exact ⟨fun _ => ⟨hu, hold⟩, fun _ => ⟨s, o, hv⟩⟩
  · exact ⟨by simp [hv], fun h => absurd h.2 hold⟩

theorem check_eq_upToDate_iff :
    check d cwd source output = .ok .upToDate ↔
      ¬ Unreadable d cwd source output ∧ (∃ o, HasStamp d cwd output o) ∧
        ¬ Outdated d cwd source output := by
  rcases check_outcomes d cwd source output with
    ⟨hu, e, he⟩ | ⟨hu, ⟨hv, hn⟩ | ⟨s, o, hv, -, -, hold⟩ | ⟨hv, ho, hold⟩⟩
  · exact ⟨by simp [he], fun h => absurd hu h.1⟩
  · exact ⟨by simp [hv], fun ⟨_, ⟨o, ho⟩, _⟩ => absurd ho (hn o)⟩
  · exact ⟨by simp [hv], fun h => absurd hold h.2.2⟩
  · exact ⟨fun _ => ⟨hu, ho, hold⟩, fun _ => hv⟩

theorem extremal_of_check {s o : Stamp} (h : check d cwd source output = .ok (.outdated s o)) :
    IsNewest d cwd source s ∧ IsOldest d cwd output o := by
  rcases check_outcomes d cwd source output with
    ⟨-, e, he⟩ | ⟨-, ⟨hv, -⟩ | ⟨s', o', hv, hs, ho, -⟩ | ⟨hv, -⟩⟩
  · simp [he] at h
  · simp [hv] at h
  · obtain ⟨rfl, rfl⟩ : s' = s ∧ o' = o := by simpa [hv] using h
    exact ⟨hs, ho⟩
  · simp [hv] at h

/-! ### The order of entries -/

theorem eq_of_not_isBefore {s t : Instant} (hst : s.isBefore t = false)
    (hts : t.isBefore s = false) : s = t := by
  cases s
  cases t
  simp only [Instant.isBefore, decide_eq_false_iff_not] at hst hts
  rw [Instant.mk.injEq]
  omega

section

variable {d' : Disk} (h : d.SameTree d')

include h

theorem unreadable_congr :
    Unreadable d' cwd source output ↔ Unreadable d cwd source output := by
  rw [Unreadable, Unreadable, pathExists_congr h, pathExists_congr h, broken_congr h,
    broken_congr h]

theorem outdated_congr : Outdated d' cwd source output ↔ Outdated d cwd source output := by
  simp only [Outdated, hasStamp_congr h]

theorem eq_of_isNewest {s s' : Stamp} (hs : IsNewest d cwd root s)
    (hs' : IsNewest d' cwd root s') : s.modified = s'.modified :=
  eq_of_not_isBefore (hs.2 s' ((hasStamp_congr h).mp hs'.1))
    (hs'.2 s ((hasStamp_congr h).mpr hs.1))

theorem eq_of_isOldest {o o' : Stamp} (ho : IsOldest d cwd root o)
    (ho' : IsOldest d' cwd root o') : o.modified = o'.modified :=
  eq_of_not_isBefore (ho'.2 o ((hasStamp_congr h).mpr ho.1))
    (ho.2 o' ((hasStamp_congr h).mp ho'.1))

/-- The order in which directories are listed does not matter for a check. -/
theorem sameOutcome_of_sameTree :
    SameOutcome (check d cwd source output) (check d' cwd source output) := by
  have hread : ¬ Unreadable d' cwd source output ↔ ¬ Unreadable d cwd source output :=
    not_congr (unreadable_congr h)
  have hstamp : ∀ o, HasStamp d' cwd output o ↔ HasStamp d cwd output o :=
    fun o => hasStamp_congr h
  rcases check_outcomes d cwd source output with
    ⟨hu, e, he⟩ | ⟨hu, ⟨hv, hn⟩ | ⟨s, o, hv, hs, ho, hold⟩ | ⟨hv, ⟨o, ho⟩, hold⟩⟩
  · obtain ⟨e', he'⟩ := exists_check_eq_error_iff.mpr ((unreadable_congr h).mpr hu)
    rw [he, he']
    exact .error e e'
  · have hv' : check d' cwd source output = .ok (.noOutput output) :=
      check_eq_noOutput_iff.mpr ⟨rfl, hread.mpr hu, fun o ho => hn o ((hstamp o).mp ho)⟩
    rw [hv, hv']
    exact .noOutput output
  · obtain ⟨s', o', hv'⟩ :=
      exists_check_eq_outdated_iff.mpr ⟨hread.mpr hu, (outdated_congr h).mpr hold⟩
    obtain ⟨hs', ho'⟩ := extremal_of_check hv'
    rw [hv, hv']
    exact .outdated (eq_of_isNewest h hs hs') (eq_of_isOldest h ho ho')
  · have hv' : check d' cwd source output = .ok .upToDate :=
      check_eq_upToDate_iff.mpr
        ⟨hread.mpr hu, ⟨o, (hstamp o).mpr ho⟩, mt (outdated_congr h).mp hold⟩
    rw [hv, hv']
    exact .upToDate

end

/-- **What a check says.**  It fails exactly if the sources are missing or broken, or the outputs
are there and broken.  Otherwise it finds no output, or an output older than a source, or neither,
and names the newest source and the oldest output if that is why a build is needed.  Listing
directories in another order changes no more than the error or the paths that are named. -/
theorem check_spec (d : Disk) (cwd : List Name) (source output : Path) :
    ((∃ e, check d cwd source output = .error e) ↔ Unreadable d cwd source output) ∧
      (check d cwd source output = .ok (.noOutput output) ↔
        ¬ Unreadable d cwd source output ∧
          (d.pathExists cwd output = false ∨ ∀ o, ¬ HasStamp d cwd output o)) ∧
      ((∃ s o, check d cwd source output = .ok (.outdated s o)) ↔
        ¬ Unreadable d cwd source output ∧ Outdated d cwd source output) ∧
      (check d cwd source output = .ok .upToDate ↔
        ¬ Unreadable d cwd source output ∧ (∃ o, HasStamp d cwd output o) ∧
          ¬ Outdated d cwd source output) ∧
      (∀ dir, check d cwd source output = .ok (.noOutput dir) → dir = output) ∧
      (∀ s o, check d cwd source output = .ok (.outdated s o) →
        IsNewest d cwd source s ∧ IsOldest d cwd output o) ∧
      ∀ d', d.SameTree d' →
        SameOutcome (check d cwd source output) (check d' cwd source output) := by
  have hmissing : d.pathExists cwd output = false → ∀ o, ¬ HasStamp d cwd output o :=
    not_hasStamp_of_missing
  have hnone : (d.pathExists cwd output = false ∨ ∀ o, ¬ HasStamp d cwd output o) ↔
      ∀ o, ¬ HasStamp d cwd output o := ⟨fun h => h.elim hmissing id, .inr⟩
  refine ⟨exists_check_eq_error_iff, ?_, exists_check_eq_outdated_iff, check_eq_upToDate_iff,
    fun dir h => (check_eq_noOutput_iff.mp h).1, fun s o h => extremal_of_check h,
    fun d' h => sameOutcome_of_sameTree h⟩
  rw [hnone, check_eq_noOutput_iff, and_iff_right rfl]

end

end SuiteGate.Staleness
