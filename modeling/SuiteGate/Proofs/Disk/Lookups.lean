import SuiteGate.Proofs.Disk.Routes
import SuiteGate.Proofs.Paths
/-!
# Looking up paths

The way of a path (`Disk.wayTo`) decides what the path leads to: it is found if the path can be
followed at all (`Disk.Followable`) and nothing is missing on the way (`locate_eq_ok_iff`).  What
is found does not become more when things are removed (`Disk.Within`, `locate_of_within`), and a
path leads through its way to what is below it (`locate_child`).
-/

namespace SuiteGate.Disk

/-- A series that ends with a result, taken apart. -/
theorem exists_of_bind_eq_ok {ε α β : Type} {x : Except ε α} {f : α → Except ε β} {b : β}
    (h : x >>= f = .ok b) : ∃ a, x = .ok a ∧ f a = .ok b := by
  cases x with
  | error e => cases h
  | ok a => exact ⟨a, rfl, h⟩

/-- The way of a path from a directory. -/
def wayTo (d : Disk) (cwd : List Name) (final : Bool) (p : Path) : Route :=
  d.route final maxLinks (origin cwd p) (stepsOf p)

/-- A path can be followed: it is neither empty nor holds a NUL, and it starts in a directory. -/
structure Followable (d : Disk) (cwd : List Name) (p : Path) : Prop where
  noNul : p.text.toList.contains '\x00' = false
  notEmpty : p.text.isEmpty = false
  start : d.DirAt (origin cwd p)

section

variable {d : Disk} {cwd : List Name} {p : Path} {final : Bool}

theorem resolveSteps_eq_ok_iff {steps : List Path.Step} {place : Place} :
    d.resolveSteps cwd p steps final = .ok place ↔
      d.Followable cwd p ∧
        followLinks d.root final maxLinks (origin cwd p) steps = .ok place := by
  rw [resolveSteps]
  cases hnul : p.text.toList.contains '\x00' with
  | true =>
    rw [if_pos rfl]
    exact ⟨by simp, fun h => absurd (hnul.symm.trans h.1.noNul) (by simp)⟩
  | false =>
    rw [if_neg (by simp)]
    cases hempty : p.text.isEmpty with
    | true =>
      rw [if_pos rfl]
      exact ⟨by simp, fun h => absurd (hempty.symm.trans h.1.notEmpty) (by simp)⟩
    | false =>
      rw [if_neg (by simp)]
      by_cases hstart : d.DirAt (origin cwd p)
      · obtain ⟨n, hn, hdir⟩ := dirAt_iff.mp hstart
        obtain ⟨l, es, rfl⟩ := Node.exists_eq_dir hdir
        simp only [hn]
        constructor
        · intro h
          refine ⟨⟨hnul, hempty, hstart⟩, ?_⟩
          cases hf : followLinks d.root final maxLinks (origin cwd p) steps with
          | error e => simp [hf, Except.mapError] at h
          | ok q => simpa [hf, Except.mapError] using h
        · rintro ⟨-, h⟩
          rw [h]
          rfl
      · constructor
        · intro h
          split at h
          · next l es hn => exact absurd (dirAt_iff.mpr ⟨_, hn, rfl⟩) hstart
          · simp at h
        · exact fun h => absurd h.1.start hstart

/-- **A path leads to something** if it can be followed and nothing is missing on its way. -/
theorem locate_eq_ok_iff {place : List Name} {n : Node} :
    d.locate cwd p final = .ok (place, n) ↔
      d.Followable cwd p ∧ (d.wayTo cwd final p).goal = some place ∧ d.get? place = some n ∧
        ∀ q ∈ (d.wayTo cwd final p).met, d.kindAt q ≠ none := by
  rw [wayTo, ← followLinks_eq_present_iff, ← resolveSteps_eq_ok_iff, locate, resolve]
  cases hr : d.resolveSteps cwd p (stepsOf p) final with
  | error e => exact ⟨fun h => by simp [bind, Except.bind] at h, by simp⟩
  | ok q =>
    cases q with
    | present place' n' => simp [bind, Except.bind, pure, Except.pure]
    | absent dir x => simp [bind, Except.bind, throw, throwThe, MonadExceptOf.throw]

theorem stat_eq_ok_iff {n : Node} :
    d.stat cwd p = .ok n ↔ ∃ place, d.locate cwd p true = .ok (place, n) := by
  rw [stat]
  cases d.locate cwd p true with
  | error e => simp [bind, Except.bind]
  | ok r =>
    obtain ⟨place, m⟩ := r
    simp [bind, Except.bind, pure, Except.pure]

theorem lstat_eq_ok_iff {n : Node} :
    d.lstat cwd p = .ok n ↔ ∃ place, d.locate cwd p false = .ok (place, n) := by
  rw [lstat]
  cases d.locate cwd p false with
  | error e => simp [bind, Except.bind]
  | ok r =>
    obtain ⟨place, m⟩ := r
    simp [bind, Except.bind, pure, Except.pure]

theorem pathExists_iff : d.pathExists cwd p = true ↔ ∃ n, d.stat cwd p = .ok n := by
  rw [pathExists]
  cases d.stat cwd p with
  | error e => simp [Except.isOk, Except.toBool]
  | ok n => simp [Except.isOk, Except.toBool]

theorem isDir_iff : d.isDir cwd p = true ↔ ∃ n, d.stat cwd p = .ok n ∧ n.isDir = true := by
  rw [isDir]
  cases d.stat cwd p with
  | error e => simp
  | ok n => simp

theorem readFile_eq_ok_iff {bytes : ByteArray} :
    d.readFile cwd p = .ok bytes ↔
      ∃ place data, d.locate cwd p true = .ok (place, .file data) ∧ data.bytes = bytes := by
  rw [readFile, readData, stat]
  cases d.locate cwd p true with
  | error e => simp [bind, Except.bind]
  | ok r =>
    obtain ⟨place, n⟩ := r
    cases n with
    | file data => simp [bind, Except.bind, pure, Except.pure]
    | dir l es => simp [bind, Except.bind, pure, Except.pure, throw, throwThe, MonadExceptOf.throw]
    | link t => simp [bind, Except.bind, pure, Except.pure, throw, throwThe, MonadExceptOf.throw]

theorem stat_eq_error_iff : (∃ e, d.stat cwd p = .error e) ↔ d.pathExists cwd p = false := by
  rw [pathExists]
  cases d.stat cwd p with
  | error e => simp [Except.isOk, Except.toBool]
  | ok n => simp [Except.isOk, Except.toBool]

/-! ### Links at the end -/

/-- What a path leads to through links, it leads to without, or to the first of the links. -/
theorem exists_lstat_of_stat {n : Node} (h : d.stat cwd p = .ok n) :
    ∃ m, d.lstat cwd p = .ok m ∧ (m.isLink = false → m = n) := by
  obtain ⟨place, hloc⟩ := stat_eq_ok_iff.mp h
  obtain ⟨hfol, hgoal, hn, hmet⟩ := locate_eq_ok_iff.mp hloc
  have hway : d.wayTo cwd true p = d.wayTo cwd false p ∨ _ :=
    route_true_or_stopped d maxLinks (origin cwd p) (stepsOf p)
  rcases hway with hway | ⟨stop, target, hstop, hlink, hsub⟩
  · rw [hway] at hgoal hmet
    exact ⟨n, lstat_eq_ok_iff.mpr ⟨place, locate_eq_ok_iff.mpr ⟨hfol, hgoal, hn, hmet⟩⟩,
      fun _ => rfl⟩
  · refine ⟨.link target, lstat_eq_ok_iff.mpr ⟨stop, locate_eq_ok_iff.mpr ⟨hfol, hstop, ?_, ?_⟩⟩,
      fun h => by simp [Node.isLink] at h⟩
    · exact get?_of_kindAt_link hlink
    · exact fun q hq => hmet q (hsub q hq)

/-- A path that is followed to the end comes by all that it comes by otherwise. -/
theorem met_wayTo_subset (d : Disk) (cwd : List Name) (p : Path) (final : Bool) :
    (d.wayTo cwd final p).met ⊆ (d.wayTo cwd true p).met := by
  cases final with
  | true => exact List.Subset.refl _
  | false =>
    have hway : d.wayTo cwd true p = d.wayTo cwd false p ∨ _ :=
      route_true_or_stopped d maxLinks (origin cwd p) (stepsOf p)
    rcases hway with hsame | ⟨-, -, -, -, hsub⟩
    · rw [hsame]
      exact List.Subset.refl _
    · exact fun q hq => hsub q hq

/-- What a path leads to, if it is no link, it leads to in any case. -/
theorem locate_true_of_not_isLink {place : List Name} {n : Node}
    (h : d.locate cwd p false = .ok (place, n)) (hn : n.isLink = false) :
    d.locate cwd p true = .ok (place, n) := by
  obtain ⟨hfol, hgoal, hget, hmet⟩ := locate_eq_ok_iff.mp h
  have hway : d.wayTo cwd true p = d.wayTo cwd false p ∨ _ :=
    route_true_or_stopped d maxLinks (origin cwd p) (stepsOf p)
  rcases hway with hway | ⟨stop, target, hstop, hlink, -⟩
  · rw [← hway] at hgoal hmet
    exact locate_eq_ok_iff.mpr ⟨hfol, hgoal, hget, hmet⟩
  · -- the way stopped at a link, but what was found is no link
    have hgoal : (d.route false maxLinks (origin cwd p) (stepsOf p)).goal = some place := hgoal
    rw [hstop, Option.some.injEq] at hgoal
    subst hgoal
    rw [kindAt_of_get? hget, Option.some.injEq, Node.kind_eq_link_iff] at hlink
    simp [hlink, Node.isLink] at hn

theorem stat_of_lstat {n : Node} (h : d.lstat cwd p = .ok n) (hn : n.isLink = false) :
    d.stat cwd p = .ok n := by
  obtain ⟨place, hloc⟩ := lstat_eq_ok_iff.mp h
  exact stat_eq_ok_iff.mpr ⟨place, locate_true_of_not_isLink hloc hn⟩

end

/-! ### Removing things -/

/-- What stands in the first disk stands in the second. -/
def Within (d' d : Disk) : Prop :=
  ∀ q, d'.kindAt q ≠ none → d'.kindAt q = d.kindAt q

theorem Within.refl (d : Disk) : d.Within d := fun _ _ => rfl

theorem Within.trans {d d' d'' : Disk} (h : d.Within d') (h' : d'.Within d'') : d.Within d'' := by
  intro q hq
  have hq' := h q hq
  rw [hq']
  exact h' q (hq' ▸ hq)

theorem Within.dirAt {d' d : Disk} (h : d'.Within d) {q : List Name} (hq : d'.DirAt q) :
    d.DirAt q := by
  obtain ⟨l, hl⟩ := hq
  exact ⟨l, (h q (by simp [hl])).symm.trans hl⟩

/-- Two disks hold the same tree; only the order in which directories are listed may differ. -/
def SameTree (d d' : Disk) : Prop :=
  ∀ q, d'.kindAt q = d.kindAt q

theorem SameTree.symm {d d' : Disk} (h : d.SameTree d') : d'.SameTree d := fun q => (h q).symm

theorem SameTree.within {d d' : Disk} (h : d.SameTree d') : d'.Within d := fun q _ => h q

theorem within_tick_iff {d' d : Disk} : d'.tick.Within d ↔ d'.Within d := Iff.rfl

theorem within_erase {d : Disk} {place : List Name} (h : place ≠ []) :
    (d.erase place).Within d := by
  intro q hq
  rw [kindAt_erase h] at hq ⊢
  split at hq
  · exact absurd rfl hq
  · next hp => rw [if_neg hp]

section

variable {d' d : Disk} {cwd : List Name} {p : Path} {final : Bool}

theorem Followable.of_within (h : d'.Within d) (hf : d'.Followable cwd p) : d.Followable cwd p :=
  ⟨hf.noNul, hf.notEmpty, h.dirAt hf.start⟩

/-- A way on which nothing is missing is the same where more stands. -/
theorem wayTo_of_within (h : d'.Within d)
    (hmet : ∀ q ∈ (d'.wayTo cwd final p).met, d'.kindAt q ≠ none) :
    d.wayTo cwd final p = d'.wayTo cwd final p :=
  route_eq_of_alike fun q hq => .inl (.inl (h q (hmet q hq)).symm)

/-- **What is found after things were removed** was found before, at the same place. -/
theorem locate_of_within (h : d'.Within d) {place : List Name} {n : Node}
    (hl : d'.locate cwd p final = .ok (place, n)) :
    ∃ m, d.locate cwd p final = .ok (place, m) ∧ m.kind = n.kind := by
  obtain ⟨hfol, hgoal, hn, hmet⟩ := locate_eq_ok_iff.mp hl
  have hway := wayTo_of_within h hmet
  have hk : d.kindAt place = some n.kind :=
    (h place (by simp [kindAt_of_get? hn])).symm.trans (kindAt_of_get? hn)
  obtain ⟨m, hm, hmk⟩ := kindAt_eq_some_iff.mp hk
  refine ⟨m, locate_eq_ok_iff.mpr ⟨hfol.of_within h, hway ▸ hgoal, hm, fun q hq => ?_⟩, hmk⟩
  rw [hway] at hq
  rw [← h q (hmet q hq)]
  exact hmet q hq

theorem stat_of_within (h : d'.Within d) {n : Node} (hs : d'.stat cwd p = .ok n) :
    ∃ m, d.stat cwd p = .ok m ∧ m.kind = n.kind := by
  obtain ⟨place, hl⟩ := stat_eq_ok_iff.mp hs
  obtain ⟨m, hm, hk⟩ := locate_of_within h hl
  exact ⟨m, stat_eq_ok_iff.mpr ⟨place, hm⟩, hk⟩

theorem pathExists_of_within (h : d'.Within d) (he : d'.pathExists cwd p = true) :
    d.pathExists cwd p = true := by
  obtain ⟨n, hn⟩ := pathExists_iff.mp he
  obtain ⟨m, hm, -⟩ := stat_of_within h hn
  exact pathExists_iff.mpr ⟨m, hm⟩

end

/-! ### Paths below a path -/

section

variable {d : Disk} {cwd : List Name} {p : Path}

theorem origin_join {q : Path} (hq : q.isAbsolute = false) :
    origin cwd (p.join q) = origin cwd p := by
  rw [origin, origin, Path.isAbsolute_join hq]

theorem stepsOf_child (x : Name) : stepsOf (p.child x.text) = p.steps ++ [.down x] := by
  rw [stepsOf, Path.hasTrailingSlash_child, Path.steps_child]
  simp

/-- The way of a path is the way of its steps, unless a separator at its end blocks it. -/
theorem route_steps_of_wayTo {g : List Name} (h : (d.wayTo cwd true p).goal = some g) :
    d.route true maxLinks (origin cwd p) p.steps = d.wayTo cwd true p := by
  rw [wayTo, stepsOf] at h ⊢
  cases hs : p.hasTrailingSlash with
  | false => simp
  | true =>
    simp only [hs, if_true] at h ⊢
    rcases route_append d true maxLinks (origin cwd p) p.steps
      (List.cons_ne_nil Path.Step.stay []) with ⟨hnone, -⟩ | ⟨g', k', hg', heq⟩
    · rw [hnone] at h
      simp at h
    · rw [heq, route_stay, route_nil, Route.andThen, ← hg']
      simp

/-- The way of the steps along a path that ends at no file is the way of the path. -/
theorem wayTo_of_route_steps {g : List Name}
    (h : (d.route true maxLinks (origin cwd p) p.steps).goal = some g)
    (hg : ∀ data, d.kindAt g ≠ some (.file data)) :
    d.wayTo cwd true p = d.route true maxLinks (origin cwd p) p.steps := by
  rw [wayTo, stepsOf]
  cases hs : p.hasTrailingSlash with
  | false => simp
  | true =>
    simp only [if_true]
    rcases route_append d true maxLinks (origin cwd p) p.steps
      (List.cons_ne_nil Path.Step.stay []) with ⟨-, hfile⟩ | ⟨g', k', hg', heq⟩
    · obtain ⟨data, hdata⟩ := hfile g h
      exact absurd hdata (hg data)
    · rw [heq, route_stay, route_nil, Route.andThen, ← hg']
      simp

/-- **The path of an entry** of a directory that a path leads to leads to the entry. -/
theorem locate_child {place : List Name} {l : Access} {es : List (Name × Node)} {x : Name}
    {m : Node} (h : d.locate cwd p true = .ok (place, .dir l es)) (hm : es.lookup x = some m)
    (hx : x.text.toList.contains '\x00' = false) :
    d.locate cwd (p.child x.text) false = .ok (place ++ [x], m) := by
  obtain ⟨hfol, hgoal, hn, hmet⟩ := locate_eq_ok_iff.mp h
  have hsteps := route_steps_of_wayTo hgoal
  have hkind : d.kindAt place = some (.dir l) := kindAt_of_get? hn
  have hget : d.get? (place ++ [x]) = some m := (get?_concat hn x).trans hm
  have horigin : origin cwd (p.child x.text) = origin cwd p := by
    rw [Path.child_eq, origin_join (Path.isAbsolute_ofJoin _)]
  -- a separator at the end of the path is not there any more in the path of the entry
  have hway : d.wayTo cwd false (p.child x.text) =
      (d.wayTo cwd true p).andThen ⟨[place ++ [x]], [], some (place ++ [x])⟩ := by
    rw [wayTo, stepsOf_child, horigin]
    rcases route_append d false maxLinks (origin cwd p) p.steps
      (List.cons_ne_nil (Path.Step.down x) []) with ⟨-, hfile⟩ | ⟨g, k', hg, heq⟩
    · obtain ⟨data, hdata⟩ := hfile place (hsteps ▸ hgoal)
      simp [hkind] at hdata
    · rw [hsteps, hgoal, Option.some.injEq] at hg
      subst hg
      rw [heq, route_name, hsteps]
  refine locate_eq_ok_iff.mpr
    ⟨⟨?_, Path.isEmpty_text_child p x, horigin ▸ hfol.start⟩, ?_, hget, ?_⟩
  · rw [Path.contains_nul_child, hfol.noNul, hx]
    rfl
  · rw [hway]; rfl
  · rw [hway]
    intro q hq
    rcases List.mem_append.mp hq with hq | hq
    · exact hmet q hq
    · rw [List.mem_singleton.mp hq, kindAt_of_get? hget]
      simp

/-! ### Listing a directory -/

/-- **What has something below it** is a directory. -/
theorem isDir_of_pathExists_child {x : Name} (hp : p.text.isEmpty = false)
    (h : d.pathExists cwd (p.child x.text) = true) : d.isDir cwd p = true := by
  obtain ⟨m, hm⟩ := pathExists_iff.mp h
  obtain ⟨place, hloc⟩ := stat_eq_ok_iff.mp hm
  obtain ⟨hfol, hway⟩ := locate_eq_ok_iff.mp hloc
  have horigin : origin cwd (p.child x.text) = origin cwd p := by
    rw [Path.child_eq, origin_join (Path.isAbsolute_ofJoin _)]
  have hstart := hfol.start
  rw [horigin] at hstart
  rw [wayTo, stepsOf_child, horigin, ← followLinks_eq_present_iff] at hway
  obtain ⟨g, n, k, hg, hn, -⟩ :=
    exists_dir_of_followLinks_append (List.cons_ne_nil _ []) hstart hway
  obtain ⟨hgoal, hget, hmet⟩ := followLinks_eq_present_iff.mp hg
  -- a separator at the end of the path does no harm
  have hsteps := wayTo_of_route_steps hgoal fun data hdata => by
    rw [kindAt_of_get? hget, Option.some.injEq] at hdata
    cases Node.kind_eq_file_iff.mp hdata
    cases hn
  have hnul : p.text.toList.contains '\x00' = false := by
    have hchild := hfol.noNul
    rw [Path.contains_nul_child, Bool.or_eq_false_iff] at hchild
    exact hchild.1
  refine isDir_iff.mpr ⟨n, stat_eq_ok_iff.mpr ⟨g, ?_⟩, hn⟩
  exact locate_eq_ok_iff.mpr ⟨⟨hnul, hp, hstart⟩, hsteps ▸ hgoal, hget, hsteps ▸ hmet⟩

/-- A path that leads to a directory with a separator behind it leads there without. -/
theorem isDir_of_join_nil (hp : p.text.isEmpty = false)
    (h : d.isDir cwd (p.join (Path.ofJoin [])) = true) : d.isDir cwd p = true := by
  obtain ⟨n, hn, hdir⟩ := isDir_iff.mp h
  obtain ⟨place, hl⟩ := stat_eq_ok_iff.mp hn
  obtain ⟨hfol, hgoal, hget, hmet⟩ := locate_eq_ok_iff.mp hl
  have horigin : origin cwd (p.join (Path.ofJoin [])) = origin cwd p :=
    origin_join (Path.isAbsolute_ofJoin _)
  have hway := route_steps_of_wayTo hgoal
  rw [← hway] at hgoal hmet
  rw [Path.steps_join_nil, horigin] at hgoal hmet
  have hway' := wayTo_of_route_steps hgoal fun data hdata => by
    obtain ⟨l, hl⟩ := dirAt_iff.mpr ⟨n, hget, hdir⟩
    cases hdata.symm.trans hl
  have hnul : p.text.toList.contains '\x00' = false := by
    obtain ⟨sep, hsep⟩ := Path.exists_toList_join_nil p
    have hno := hfol.noNul
    rw [hsep, List.contains_append, Bool.or_eq_false_iff] at hno
    exact hno.1
  exact isDir_iff.mpr ⟨n, stat_eq_ok_iff.mpr ⟨place, locate_eq_ok_iff.mpr
    ⟨⟨hnul, hp, horigin ▸ hfol.start⟩, hway' ▸ hgoal, hget, hway' ▸ hmet⟩⟩, hdir⟩

theorem readDir_eq_ok_iff {es : List (Name × Node)} :
    d.readDir cwd p = .ok es ↔ ∃ w, d.stat cwd p = .ok (.dir ⟨true, w⟩ es) := by
  rw [readDir]
  cases d.stat cwd p with
  | error e => simp [bind, Except.bind]
  | ok n =>
    cases n with
    | file data => simp [bind, Except.bind, throw, throwThe, MonadExceptOf.throw]
    | link target => simp [bind, Except.bind, throw, throwThe, MonadExceptOf.throw]
    | dir l es' =>
      obtain ⟨listable, w⟩ := l
      cases listable with
      | false => simp [bind, Except.bind, throw, throwThe, MonadExceptOf.throw]
      | true => simp [bind, Except.bind, pure, Except.pure]

/-- No name is listed twice. -/
theorem nodup_of_readDir {es : List (Name × Node)} (h : d.readDir cwd p = .ok es) :
    (es.map (·.1)).Nodup := by
  obtain ⟨w, hstat⟩ := readDir_eq_ok_iff.mp h
  obtain ⟨place, hloc⟩ := stat_eq_ok_iff.mp hstat
  obtain ⟨-, -, hget, -⟩ := locate_eq_ok_iff.mp hloc
  exact Node.nodup_of_distinctEntries (Node.distinct_of_get? d.distinct hget)

/-- **What has a path below that of a directory** is listed there. -/
theorem mem_readDir_of_isDir_child {es : List (Name × Node)} {x : Name}
    (h : d.readDir cwd p = .ok es) (hx : d.isDir cwd (p.child x.text) = true) :
    x ∈ es.map (·.1) := by
  obtain ⟨n, hn, -⟩ := isDir_iff.mp hx
  obtain ⟨w, hstat⟩ := readDir_eq_ok_iff.mp h
  obtain ⟨place, hloc⟩ := stat_eq_ok_iff.mp hstat
  obtain ⟨place', hloc'⟩ := stat_eq_ok_iff.mp hn
  obtain ⟨hfol, hgoal, hget, hmet⟩ := locate_eq_ok_iff.mp hloc
  obtain ⟨-, hway⟩ := locate_eq_ok_iff.mp hloc'
  have horigin : origin cwd (p.child x.text) = origin cwd p := by
    rw [Path.child_eq, origin_join (Path.isAbsolute_ofJoin _)]
  rw [wayTo, stepsOf_child, horigin, ← followLinks_eq_present_iff] at hway
  -- the longer look-up comes by the directory, and finds the name in it
  obtain ⟨g, m, k', hg, -, hend⟩ :=
    exists_dir_of_followLinks_append (List.cons_ne_nil _ []) hfol.start hway
  obtain ⟨hgoal', -, -⟩ := followLinks_eq_present_iff.mp hg
  rw [← route_steps_of_wayTo hgoal, hgoal', Option.some.injEq] at hgoal
  subst hgoal
  by_contra hnot
  have hfree : d.kindAt (g ++ [x]) = none := by
    rw [kindAt_eq_none_iff, get?_concat hget, Node.lookup_eq_none_of_not_mem hnot]
  rw [followLinks_missing hfree] at hend
  simp at hend

end

end SuiteGate.Disk
