import SuiteGate.Disk.Copy
import SuiteGate.Proofs.Disk.Emptying
import SuiteGate.Proofs.Disk.Walks
/-!
# What operations change

Each change of a disk, in terms of the kinds at its places.  Making directories adds directories
and nothing else (`makeDirAll_grows`), and afterwards there is one (`isDir_of_makeDirAll`); the
files and links that a walk of the grown disk passes were there before (`mem_walk_of_grows`).
Removing takes a whole tree away, or fails and changes nothing or empties a directory as far as that
can be done (`removeTree_spec`).  Writing puts a file where the path leads
(`exists_place_of_copyFile`).
-/

namespace SuiteGate.Disk

/-! ### Making directories -/

/-- Directories were made where nothing stood, and all else is as before. -/
def Grows (d d' : Disk) : Prop :=
  ∀ q, d'.kindAt q = d.kindAt q ∨ d.kindAt q = none ∧ d'.kindAt q = some (.dir .full)

theorem Grows.refl (d : Disk) : d.Grows d := fun _ => .inl rfl

theorem Grows.trans {d d' d'' : Disk} (h : d.Grows d') (h' : d'.Grows d'') : d.Grows d'' := by
  intro q
  rcases h q with hq | ⟨hnone, hmade⟩
  · rcases h' q with hq' | ⟨hnone', hmade'⟩
    · exact .inl (hq'.trans hq)
    · exact .inr ⟨hq.symm.trans hnone', hmade'⟩
  · -- a directory of the first growth is not replaced in the second
    rcases h' q with hq' | ⟨hnone', -⟩
    · exact .inr ⟨hnone, hq'.trans hmade⟩
    · cases hnone'.symm.trans hmade

theorem Grows.alike {d d' : Disk} (h : d.Grows d') (q : List Name) : d.Alike d' q :=
  (h q).imp id fun h => .inl ⟨.inl h.1, .inr ⟨.full, h.2⟩⟩

theorem Grows.dirAt {d d' : Disk} (h : d.Grows d') {q : List Name} (hq : d.DirAt q) :
    d'.DirAt q := by
  obtain ⟨l, hl⟩ := hq
  rcases h q with hq | ⟨hnone, -⟩
  · exact ⟨l, hq.trans hl⟩
  · simp [hnone] at hl

theorem Grows.kindAt_ne_none {d d' : Disk} (h : d.Grows d') {q : List Name}
    (hq : d.kindAt q ≠ none) : d'.kindAt q ≠ none := by
  rcases h q with hq' | ⟨hnone, -⟩
  · rwa [hq']
  · exact absurd hnone hq

/-- A directory is writable by its kind. -/
theorem isWritable_iff {d : Disk} {place : List Name} :
    d.isWritable place = true ↔ ∃ l, d.kindAt place = some (.dir ⟨l, true⟩) := by
  rw [isWritable, kindAt]
  rcases d.get? place with - | data | target | ⟨⟨l, w⟩, es⟩ <;> simp [Node.kind]

theorem isWritable_congr {d d' : Disk} {place : List Name} (h : d'.kindAt place = d.kindAt place) :
    d'.isWritable place = d.isWritable place := by
  rw [Bool.eq_iff_iff, isWritable_iff, isWritable_iff, h]

theorem dirAt_of_isWritable {d : Disk} {place : List Name} (h : d.isWritable place = true) :
    d.DirAt place := by
  obtain ⟨l, hl⟩ := isWritable_iff.mp h
  exact ⟨_, hl⟩

/-- A writable directory stays one, and those that were made are writable. -/
theorem Grows.isWritable {d d' : Disk} (h : d.Grows d') {q : List Name}
    (hq : d.isWritable q = true ∨ d.kindAt q = none ∧ d'.kindAt q ≠ none) :
    d'.isWritable q = true := by
  rcases h q with hsame | ⟨hnone, hmade⟩
  · rcases hq with hq | ⟨hnone, hsome⟩
    · rwa [isWritable_congr hsame]
    · exact absurd (hsame.trans hnone) hsome
  · exact isWritable_iff.mpr ⟨true, hmade⟩

section

variable {d d' : Disk} {cwd : List Name} {p : Path}

theorem exists_absent_of_makeDir (h : d.makeDir cwd p = .ok d') :
    ∃ dir x, d.resolveSteps cwd p p.steps false = .ok (.absent dir x) ∧
      d.isWritable dir = true ∧
      d' = (d.put (dir ++ [x]) Node.emptyDir Node.distinct_emptyDir).tick := by
  rw [makeDir] at h
  obtain ⟨place, hr, hmade⟩ := exists_of_bind_eq_ok h
  cases place with
  | present place n => cases hmade
  | absent dir x =>
    cases hw : d.isWritable dir with
    | false =>
      simp only [hw] at hmade
      cases hmade
    | true =>
      simp only [hw] at hmade
      exact ⟨dir, x, hr, hw, (Except.ok.inj hmade).symm⟩

theorem makeDir_eq_ok {dir : List Name} {x : Name}
    (h : d.resolveSteps cwd p p.steps false = .ok (.absent dir x))
    (hw : d.isWritable dir = true) :
    d.makeDir cwd p = .ok (d.put (dir ++ [x]) Node.emptyDir Node.distinct_emptyDir).tick := by
  simp [makeDir, h, hw, bind, Except.bind, pure, Except.pure]

/-- The new directory is all that changes. -/
theorem kindAt_of_makeDir {dir : List Name} {x : Name} (hdir : d.DirAt dir)
    (hfree : d.kindAt (dir ++ [x]) = none) (q : List Name) :
    (d.put (dir ++ [x]) Node.emptyDir Node.distinct_emptyDir).kindAt q =
      if q = dir ++ [x] then some (.dir .full) else d.kindAt q := by
  have hnot : ¬ d.DirAt (dir ++ [x]) := by
    rintro ⟨l, hl⟩
    simp [hfree] at hl
  exact kindAt_put_leaf rfl hdir hnot q

theorem grows_of_makeDir (h : d.makeDir cwd p = .ok d') : d.Grows d' := by
  obtain ⟨dir, x, hr, -, rfl⟩ := exists_absent_of_makeDir h
  obtain ⟨hfol, hf⟩ := resolveSteps_eq_ok_iff.mp hr
  obtain ⟨-, hdir, hfree, -⟩ := route_of_absent hfol.start hf
  intro q
  rw [kindAt_tick, kindAt_of_makeDir hdir hfree]
  split
  · next hq =>
    subst hq
    exact .inr ⟨hfree, rfl⟩
  · exact .inl rfl

theorem Followable.of_grows (h : d.Grows d') (hf : d.Followable cwd p) : d'.Followable cwd p :=
  ⟨hf.noNul, hf.notEmpty, h.dirAt hf.start⟩

/-- What a path leads to is still there after directories were made. -/
theorem locate_of_grows (h : d.Grows d') {final : Bool} {place : List Name} {n : Node}
    (hl : d.locate cwd p final = .ok (place, n)) :
    ∃ m, d'.locate cwd p final = .ok (place, m) ∧ m.kind = n.kind := by
  obtain ⟨hfol, hgoal, hn, hmet⟩ := locate_eq_ok_iff.mp hl
  have hway : d'.wayTo cwd final p = d.wayTo cwd final p :=
    route_eq_of_alike fun q _ => .inl (h.alike q)
  have hk := kindAt_of_get? hn
  rcases h place with hp | ⟨hnone, -⟩
  · obtain ⟨m, hm, hmk⟩ := kindAt_eq_some_iff.mp (hp.trans hk)
    exact ⟨m, locate_eq_ok_iff.mpr ⟨hfol.of_grows h, hway ▸ hgoal, hm, fun q hq =>
      h.kindAt_ne_none (hmet q (hway ▸ hq))⟩, hmk⟩
  · simp [hnone] at hk

theorem lstat_of_grows (h : d.Grows d') {l : Access} {es : List (Name × Node)}
    (hl : d.lstat cwd p = .ok (.dir l es)) : ∃ es', d'.lstat cwd p = .ok (.dir l es') := by
  obtain ⟨place, hloc⟩ := lstat_eq_ok_iff.mp hl
  obtain ⟨m, hm, hk⟩ := locate_of_grows h hloc
  obtain ⟨es', rfl⟩ := Node.kind_eq_dir_iff.mp hk
  exact ⟨es', lstat_eq_ok_iff.mpr ⟨place, hm⟩⟩

theorem isDir_of_grows (h : d.Grows d') (hdir : d.isDir cwd p = true) :
    d'.isDir cwd p = true := by
  obtain ⟨n, hn, hndir⟩ := isDir_iff.mp hdir
  obtain ⟨place, hl⟩ := stat_eq_ok_iff.mp hn
  obtain ⟨m, hm, hk⟩ := locate_of_grows h hl
  refine isDir_iff.mpr ⟨m, stat_eq_ok_iff.mpr ⟨place, hm⟩, ?_⟩
  rw [Node.isDir_iff] at hndir ⊢
  rwa [hk]

/-- What is no directory stands where it stood before directories were made. -/
theorem Grows.kindAt_eq_iff (h : d.Grows d') {m : Node} (hm : m.isDir = false) {q : List Name} :
    d'.kindAt q = some m.kind ↔ d.kindAt q = some m.kind := by
  rcases h q with hsame | ⟨hnone, hmade⟩
  · rw [hsame]
  · rw [hnone, hmade]
    refine iff_of_false (fun heq => ?_) (by simp)
    exact Bool.false_ne_true (hm.symm.trans (Node.isDir_iff.mpr ⟨_, (Option.some.inj heq).symm⟩))

/-- **Making directories** does not change which files and links a directory holds. -/
theorem holds_iff_of_grows (h : d.Grows d') {m : Node} (hm : m.isDir = false) {rel : List Name}
    {place : List Name} {n n' : Node} (hn : d.get? place = some n)
    (hn' : d'.get? place = some n') : n'.Holds rel m ↔ n.Holds rel m := by
  induction rel generalizing place n n' with
  | nil =>
    have hkind := h.kindAt_eq_iff hm (q := place)
    rw [kindAt_of_get? hn, kindAt_of_get? hn', Option.some.injEq, Option.some.injEq,
      Node.kind_eq_iff_of_leaf hm, Node.kind_eq_iff_of_leaf hm] at hkind
    rw [Node.holds_nil_iff, Node.holds_nil_iff, hkind]
  | cons x rel ih =>
    have hsame : n'.kind = n.kind := by
      rcases h place with hsame | ⟨hnone, -⟩
      · rwa [kindAt_of_get? hn, kindAt_of_get? hn', Option.some.injEq] at hsame
      · cases hnone.symm.trans (kindAt_of_get? hn)
    rw [holds_cons_iff hn, holds_cons_iff hn', hsame]
    refine and_congr_right fun _ => ?_
    constructor
    · rintro ⟨c', hc', hrest⟩
      -- what is held below stood there before, and so did what is above it
      have hleaf := (h.kindAt_eq_iff hm).mp (kindAt_of_get? (get?_of_holds hc' hrest))
      have hthere : d.kindAt (place ++ [x]) ≠ none := by
        intro hnone
        cases (kindAt_eq_none_below hnone (List.prefix_append _ rel)).symm.trans hleaf
      obtain ⟨c, hc⟩ := Option.ne_none_iff_exists'.mp (mt kindAt_eq_none_iff.mpr hthere)
      exact ⟨c, hc, (ih hc hc').mp hrest⟩
    · rintro ⟨c, hc, hrest⟩
      have hthere := h.kindAt_ne_none (ne_of_eq_of_ne (kindAt_of_get? hc) (Option.some_ne_none _))
      obtain ⟨c', hc'⟩ := Option.ne_none_iff_exists'.mp (mt kindAt_eq_none_iff.mpr hthere)
      exact ⟨c', hc', (ih hc hc').mpr hrest⟩

/-- **Making directories** does not change which files and links are reached. -/
theorem reaches_iff_of_grows (h : d.Grows d') {top m : Node} (htop : d.stat cwd p = .ok top)
    (hm : m.isDir = false) {rel : List Name} :
    d'.Reaches cwd p rel m ↔ d.Reaches cwd p rel m := by
  obtain ⟨place, hl⟩ := stat_eq_ok_iff.mp htop
  obtain ⟨top', hl', -⟩ := locate_of_grows h hl
  obtain ⟨-, -, hget, -⟩ := locate_eq_ok_iff.mp hl
  obtain ⟨-, -, hget', -⟩ := locate_eq_ok_iff.mp hl'
  rw [Reaches, Reaches, htop, stat_eq_ok_iff.mpr ⟨place, hl'⟩]
  simpa using holds_iff_of_grows h hm hget hget'

/-- A file or link that a walk comes by after directories were made, one came by before. -/
theorem mem_walk_of_grows (h : d.Grows d') {l : Access} {es : List (Name × Node)}
    (hl : d.lstat cwd p = .ok (.dir l es)) {item : WalkItem} (hitem : .ok item ∈ d'.walk cwd p)
    (hdir : item.node.isDir = false) : .ok item ∈ d.walk cwd p := by
  have hpath := path_of_mem_walk hitem
  have hne : item.below ≠ [] := by
    intro hnil
    obtain ⟨es', hl'⟩ := lstat_of_grows h hl
    obtain heq := Except.ok.inj (hl'.symm.trans (lstat_of_mem_walk hitem hnil))
    cases heq ▸ hdir
  have hreached := reaches_of_mem_walk hitem hne
  rw [reaches_iff_of_grows h (stat_of_lstat hl rfl) hdir] at hreached
  have hmem := hreached.mem_walk fun hnil => absurd hnil hne
  rwa [← hpath] at hmem

/-- A directory that was made is where its path leads. -/
theorem isDir_of_makeDir (h : d.makeDir cwd p = .ok d') : d'.isDir cwd p = true := by
  have hgrows := grows_of_makeDir h
  obtain ⟨dir, x, hr, -, rfl⟩ := exists_absent_of_makeDir h
  obtain ⟨hfol, hf⟩ := resolveSteps_eq_ok_iff.mp hr
  obtain ⟨hgoal, hdir, hfree, hmet⟩ := route_of_absent hfol.start hf
  have hmade : (d.put (dir ++ [x]) Node.emptyDir Node.distinct_emptyDir).tick.kindAt
      (dir ++ [x]) = some (.dir .full) := by
    rw [kindAt_tick, kindAt_of_makeDir hdir hfree, if_pos rfl]
  -- nothing stood at the end of the way, so it was no link that is followed now
  have hsteps : d.route true maxLinks (origin cwd p) p.steps =
      d.route false maxLinks (origin cwd p) p.steps := by
    rcases route_true_or_stopped d maxLinks (origin cwd p) p.steps with
      heq | ⟨place, target, hstop, hlink, -⟩
    · exact heq
    · rw [hgoal, Option.some.injEq] at hstop
      rw [← hstop, hfree] at hlink
      simp at hlink
  generalize (d.put (dir ++ [x]) Node.emptyDir Node.distinct_emptyDir).tick = d' at *
  have hsame : d'.route true maxLinks (origin cwd p) p.steps =
      d.route false maxLinks (origin cwd p) p.steps :=
    (route_eq_of_alike fun q _ => .inl (hgrows.alike q)).trans hsteps
  have hgoal' := hsame.symm ▸ hgoal
  have hway : d'.wayTo cwd true p = d.route false maxLinks (origin cwd p) p.steps :=
    (wayTo_of_route_steps hgoal' (by simp [hmade])).trans hsame
  obtain ⟨n, hn, hk⟩ := kindAt_eq_some_iff.mp hmade
  refine isDir_iff.mpr ⟨n, stat_eq_ok_iff.mpr ⟨dir ++ [x], locate_eq_ok_iff.mpr
    ⟨hfol.of_grows hgrows, hway ▸ hgoal, hn, fun q hq => ?_⟩⟩, Node.isDir_iff.mpr ⟨_, hk⟩⟩
  rw [hway] at hq
  by_cases hqx : q = dir ++ [x]
  · simp [hqx, hmade]
  · exact hgrows.kindAt_ne_none (hmet q hq hqx)

/-- **What holds after a directory was made** holds after it was made with those above it. -/
theorem makeDirAllFrom_keeps {I : Disk → Prop} {P : Path → Prop}
    (hparent : ∀ p q, P p → p.parent? = some q → P q)
    (hmade : ∀ d d' p, P p → I d → d.makeDir cwd p = .ok d' → I d') (n : ℕ) {d : Disk} {p : Path}
    (hp : P p) (h : I d) : I (makeDirAllFrom cwd n d p).2 := by
  -- the branches are those of the definition: the directory, then its parents, then it again
  induction n generalizing p with
  | zero => exact h
  | succ n ih =>
    rw [makeDirAllFrom]
    split
    · exact h
    · split
      · next d' hd' => exact hmade d d' p hp h hd'
      · split
        · split
          · exact h
          · next parent habove =>
            have hparents := ih (hparent p parent hp habove)
            split
            · next d' hd' => rwa [hd'] at hparents
            · next d' hd' =>
              rw [hd'] at hparents
              split
              · next d'' hd'' => exact hmade d' d'' p hp hparents hd''
              · exact hparents
        · exact h

theorem isDir_of_makeDirAllFrom {n : ℕ} (hp : p.text.isEmpty = false)
    (h : makeDirAllFrom cwd n d p = (.ok (), d')) : d'.isDir cwd p = true := by
  cases n with
  | zero => simp [makeDirAllFrom] at h
  | succ n =>
    rw [makeDirAllFrom, hp, if_neg (by simp)] at h
    split at h
    · next d₁ hd₁ =>
      obtain rfl : d₁ = d' := by simpa using h
      exact isDir_of_makeDir hd₁
    · split at h
      · split at h
        · simp at h
        · split at h
          · simp at h
          · next d₁ _ =>
            split at h
            · next d₂ hd₂ =>
              obtain rfl : d₂ = d' := by simpa using h
              exact isDir_of_makeDir hd₂
            · -- it could not be made, but is counted as made if it is there
              obtain ⟨hdir, rfl⟩ := Prod.mk.injEq .. ▸ h
              by_contra hnot
              simp [hnot] at hdir
      · obtain ⟨hdir, rfl⟩ := Prod.mk.injEq .. ▸ h
        by_contra hnot
        simp [hnot] at hdir

/-- **Making a directory and those above it** adds directories and nothing else. -/
theorem makeDirAll_grows (d : Disk) (cwd : List Name) (p : Path) :
    d.Grows (d.makeDirAll cwd p).2 :=
  makeDirAllFrom_keeps (P := fun _ => True) (fun _ _ _ _ => trivial)
    (fun _ _ _ _ hd hmade => hd.trans (grows_of_makeDir hmade)) _ trivial (.refl d)

theorem makeParents_grows (d : Disk) (cwd : List Name) (p : Path) :
    d.Grows (d.makeParents cwd p).2 := by
  rw [makeParents]
  split
  · exact makeDirAll_grows d cwd _
  · exact .refl d

/-- **A directory that was made with those above it** is where its path leads. -/
theorem isDir_of_makeDirAll (hp : p.text.isEmpty = false)
    (h : d.makeDirAll cwd p = (.ok (), d')) : d'.isDir cwd p = true :=
  isDir_of_makeDirAllFrom hp h

end

/-! ### Removing -/

/-- The tree that a path leads to is gone. -/
def Erased (d : Disk) (cwd : List Name) (p : Path) (d' : Disk) : Prop :=
  ∃ place n, d.locate cwd p false = .ok (place, n) ∧ place ≠ [] ∧ d' = (d.erase place).tick

/-- The directory that a path leads to was emptied as far as that can be done. -/
def Emptied (d : Disk) (cwd : List Name) (p : Path) (d' : Disk) : Prop :=
  ∃ place n, d.locate cwd p false = .ok (place, n) ∧ n.isDir = true ∧ d' = (d.clear place).tick

section

variable {d d' : Disk} {cwd : List Name} {p : Path}

theorem Erased.within (h : d.Erased cwd p d') : d'.Within d := by
  obtain ⟨place, n, -, hne, rfl⟩ := h
  exact within_tick_iff.mpr (within_erase hne)

theorem Emptied.within (h : d.Emptied cwd p d') : d'.Within d := by
  obtain ⟨place, n, hl, hdir, rfl⟩ := h
  obtain ⟨-, -, hn, -⟩ := locate_eq_ok_iff.mp hl
  exact within_tick_iff.mpr (within_clear (dirAt_iff.mpr ⟨n, hn, hdir⟩))

/-- The way of a path that ends in a name ends in that name, unless it goes on through a link. -/
theorem ne_nil_of_locate {place : List Name} {n : Node} {x : Name}
    (hl : d.locate cwd p false = .ok (place, n)) (hlast : p.steps.getLast? = some (.down x))
    (hlink : d.namesLink cwd p = false) : place ≠ [] := by
  obtain ⟨init, hinit⟩ := List.getLast?_eq_some_iff.mp hlast
  obtain ⟨hfol, hgoal, hn, hmet⟩ := locate_eq_ok_iff.mp hl
  have hends : ∀ g, (d.route false maxLinks (origin cwd p) p.steps).goal = some g → g ≠ [] := by
    intro g hg
    rw [hinit] at hg
    rcases route_append d false maxLinks (origin cwd p) init
      (List.cons_ne_nil (Path.Step.down x) []) with ⟨hnone, -⟩ | ⟨g', k', -, heq⟩
    · simp [hnone] at hg
    · rw [heq, route_name] at hg
      have hg : g' ++ [x] = g := by simpa [Route.andThen] using hg
      simp [← hg]
  cases hs : p.hasTrailingSlash with
  | false =>
    refine hends place ?_
    simpa [wayTo, stepsOf, hs] using hgoal
  | true =>
    -- the way goes one idle step past the name, and so through a link
    have hway : d.wayTo cwd false p = d.route false maxLinks (origin cwd p) (p.steps ++ [.stay]) :=
      by simp [wayTo, stepsOf, hs]
    rw [hway] at hgoal hmet
    rcases route_append d false maxLinks (origin cwd p) p.steps
      (List.cons_ne_nil Path.Step.stay []) with ⟨hnone, -⟩ | ⟨g, k', hg, heq⟩
    · simp [hnone] at hgoal
    · rw [heq, route_stay, route_nil] at hgoal hmet
      have hplace : g = place := by simpa [Route.andThen] using hgoal
      rcases route_true_or_stopped d maxLinks (origin cwd p) p.steps with
        hsame | ⟨stop, target, hstop, hlinkAt, hsub⟩
      · refine hends place ?_
        rw [← hsame, hg, hplace]
      · -- the path without its separator stops at a link
        exfalso
        have hnames : d.resolveSteps cwd p p.steps false =
            .ok (.present stop (.link target)) := by
          refine resolveSteps_eq_ok_iff.mpr ⟨hfol, followLinks_eq_present_iff.mpr
            ⟨hstop, get?_of_kindAt_link hlinkAt, fun q hq => hmet q ?_⟩⟩
          exact List.mem_append_left _ (hsub q hq)
        simp [namesLink, hnames, Node.isLink] at hlink

theorem isDir_of_get?_nil {n : Node} (h : d.get? [] = some n) : n.isDir = true := by
  have hroot : d.get? [] = some d.root := Node.get?_nil _
  rw [hroot, Option.some.injEq] at h
  exact h ▸ d.isDir_root

theorem ne_nil_of_not_isDir {place : List Name} {n : Node} {final : Bool}
    (hl : d.locate cwd p final = .ok (place, n)) (hn : n.isDir = false) : place ≠ [] := by
  rintro rfl
  obtain ⟨-, -, hget, -⟩ := locate_eq_ok_iff.mp hl
  simpa [hn] using isDir_of_get?_nil hget

/-- An empty directory that nothing keeps from being removed is where its path leads. -/
theorem ne_nil_of_obstacleToRemoval {place : List Name} {n : Node}
    (hl : d.locate cwd p false = .ok (place, n)) (h : d.obstacleToRemoval cwd p = none) :
    place ≠ [] := by
  rw [obstacleToRemoval] at h
  split at h
  · next x hlast =>
    cases hlink : d.namesLink cwd p with
    | false => exact ne_nil_of_locate hl hlast hlink
    | true =>
      rw [hlink] at h
      split at h <;> cases h
  all_goals cases h

theorem isNotFound_of_obstacleToRemoval {e : OsError} (h : d.obstacleToRemoval cwd p = some e) :
    (IoError.os e).isNotFound = false := by
  rw [obstacleToRemoval] at h
  split at h
  · split at h
    · cases h
      rfl
    · split at h
      · cases h
        rfl
      · cases h
  all_goals
    cases h
    rfl

/-- **Removing a directory with everything in it:** it is gone, or the removal fails and it is as
before, or was emptied as far as that can be done. -/
theorem removeDirAll_spec (d : Disk) (cwd : List Name) (p : Path) :
    ((d.removeDirAll cwd p).1 = .ok () → d.Erased cwd p (d.removeDirAll cwd p).2) ∧
      ∀ e, (d.removeDirAll cwd p).1 = .error e →
        ((d.removeDirAll cwd p).2 = d ∨ d.Emptied cwd p (d.removeDirAll cwd p).2) ∧
          (e.isNotFound = true → d.locate cwd p false = .error e ∧
            (d.removeDirAll cwd p).2 = d) := by
  -- a removal that fails at something found never says that nothing was found
  have hfails : ∀ {d' : Disk} {e : OsError} {found : Except IoError (List Name × Node)},
      (d' = d ∨ d.Emptied cwd p d') → (IoError.os e).isNotFound = false →
        ∀ e', Except.error (α := Unit) (IoError.os e) = .error e' →
          (d' = d ∨ d.Emptied cwd p d') ∧
            (e'.isNotFound = true → found = .error e' ∧ d' = d) := by
    rintro d' e found hstate hother e' he
    cases he
    exact ⟨hstate, fun hnf => by simp [hother] at hnf⟩
  rw [removeDirAll]
  rcases hl : d.locate cwd p false with e | ⟨place, n⟩
  · exact ⟨by simp, fun e' he => ⟨.inl rfl, fun _ => ⟨by simpa using he, rfl⟩⟩⟩
  · cases n with
    | file data => exact ⟨by simp, hfails (.inl rfl) rfl⟩
    | link target =>
      simp only
      split
      · exact ⟨fun _ => ⟨place, _, hl, ne_nil_of_not_isDir hl rfl, rfl⟩, by simp⟩
      · exact ⟨by simp, hfails (.inl rfl) rfl⟩
    | dir access es =>
      -- the entries go first, whatever becomes of the directory itself
      have hclear : d.Emptied cwd p (d.clear place).tick := ⟨place, _, hl, rfl, rfl⟩
      simp only
      split
      · cases hobstacle : d.obstacleToRemoval cwd p with
        | none =>
          exact ⟨fun _ => ⟨place, _, hl, ne_nil_of_obstacleToRemoval hl hobstacle, rfl⟩, by simp⟩
        | some e =>
          exact ⟨by simp, hfails (.inr hclear) (isNotFound_of_obstacleToRemoval hobstacle)⟩
      · exact ⟨by simp, hfails (.inr hclear) rfl⟩

/-- **A removal that fails** changes nothing, or it came to the entries of a directory; nothing is
left of them then unless permission was denied. -/
theorem removeDirAll_eq_error {e : IoError} (h : d.removeDirAll cwd p = (.error e, d')) :
    d' = d ∨ ∃ place n, d.locate cwd p false = .ok (place, n) ∧ n.isDir = true ∧
      d' = (d.clear place).tick ∧ (n.strip.1 = true ∨ e = .os .permissionDenied) := by
  obtain ⟨-, herror⟩ := removeDirAll_spec d cwd p
  rw [h] at herror
  obtain ⟨hstate, -⟩ := herror e rfl
  refine hstate.imp_right ?_
  rintro ⟨place, n, hl, hdir, hd'⟩
  refine ⟨place, n, hl, hdir, hd', ?_⟩
  obtain ⟨access, es, rfl⟩ := Node.exists_eq_dir hdir
  rw [removeDirAll, hl] at h
  cases hstrip : (Node.dir access es).strip.1 with
  | true => exact .inl rfl
  | false =>
    simp only [hstrip, Bool.false_eq_true, if_false, Prod.mk.injEq, Except.error.injEq] at h
    exact .inr h.1.symm

/-- **Removing a directory that may be missing.** -/
theorem removeTree_spec (d : Disk) (cwd : List Name) (p : Path) :
    ((d.removeTree cwd p).1 = .ok () → (∃ e, d.locate cwd p false = .error e) ∧
        (d.removeTree cwd p).2 = d ∨ d.Erased cwd p (d.removeTree cwd p).2) ∧
      ∀ e, (d.removeTree cwd p).1 = .error e →
        (d.removeTree cwd p).2 = d ∨ d.Emptied cwd p (d.removeTree cwd p).2 := by
  obtain ⟨hok, herror⟩ := removeDirAll_spec d cwd p
  rw [removeTree]
  rcases hr : d.removeDirAll cwd p with ⟨e | u, d'⟩
  · rw [hr] at herror
    obtain ⟨hstate, hnf⟩ := herror e rfl
    refine ⟨fun h => .inl ?_, fun _ _ => hstate⟩
    have hnotFound : e.isNotFound = true := by
      by_contra hne
      simp [hne] at h
    exact ⟨⟨e, (hnf hnotFound).1⟩, (hnf hnotFound).2⟩
  · rw [hr] at hok
    exact ⟨fun _ => .inr (hok rfl), by simp⟩

theorem removeTree_within (d : Disk) (cwd : List Name) (p : Path) :
    (d.removeTree cwd p).2.Within d := by
  obtain ⟨hok, herror⟩ := removeTree_spec d cwd p
  rcases hr : (d.removeTree cwd p).1 with e | u
  · rcases herror e hr with hsame | hemptied
    · rw [hsame]
      exact .refl d
    · exact hemptied.within
  · rcases hok hr with ⟨-, hsame⟩ | herased
    · rw [hsame]
      exact .refl d
    · exact herased.within

/-- **Nothing is reached in a directory** through the name of a tree that was removed. -/
theorem not_reaches_of_removeTree {x : Name} (hx : x.text.toList.contains '\x00' = false)
    (h : (d.removeTree cwd (p.child x.text)).1 = .ok ()) (rel : List Name) (n : Node) :
    ¬ (d.removeTree cwd (p.child x.text)).2.Reaches cwd p (x :: rel) n := by
  intro hreach
  have hwithin := removeTree_within d cwd (p.child x.text)
  have hspec := (removeTree_spec d cwd (p.child x.text)).1 h
  generalize (d.removeTree cwd (p.child x.text)).2 = d' at hreach hwithin hspec
  obtain ⟨place, top, hl, hn, -⟩ := hreach.exists_place
  cases hn with
  | @entry _ es _ c _ _ hc _ =>
    -- what is reached now would have been found, and removed, before
    have hl' := locate_child hl hc hx
    obtain ⟨m, hm, -⟩ := locate_of_within hwithin hl'
    rcases hspec with ⟨⟨e, he⟩, -⟩ | ⟨place', n', hplace, hne, rfl⟩
    · simp [hm] at he
    · obtain ⟨rfl, -⟩ : place ++ [x] = place' ∧ m = n' := by simpa [hm] using hplace
      obtain ⟨-, -, hget, -⟩ := locate_eq_ok_iff.mp hl'
      have hkind := kindAt_of_get? hget
      rw [kindAt_tick, kindAt_erase hne, if_pos (List.prefix_refl _)] at hkind
      simp at hkind

theorem removeFile_spec (h : d.removeFile cwd p = .ok d') : d.Erased cwd p d' := by
  rw [removeFile] at h
  obtain ⟨⟨place, n⟩, hl, hremoved⟩ := exists_of_bind_eq_ok h
  have key : n.isDir = false → d' = (d.erase place).tick → d.Erased cwd p d' :=
    fun hn hd => ⟨place, n, hl, ne_nil_of_not_isDir hl hn, hd⟩
  cases n with
  | dir l es => cases hremoved
  | file data | link target =>
    refine key rfl ?_
    cases hs : p.hasTrailingSlash <;> cases hw : d.isWritable place.dropLast <;>
      simp [hs, hw, pure, Except.pure, throw, throwThe, MonadExceptOf.throw] at hremoved
    exact hremoved.symm

end

/-! ### Writing -/

section

variable {d d' : Disk} {cwd : List Name} {p : Path}

/-- A place where a file can be written: a free name in a writable directory, or a file. -/
inductive Place.Writable (d : Disk) : Place → List Name → Prop
  | absent {dir : List Name} {x : Name} : d.isWritable dir = true →
    d.kindAt (dir ++ [x]) = none → Writable d (.absent dir x) (dir ++ [x])
  | present {place : List Name} {data : FileData} : d.get? place = some (.file data) →
    Writable d (.present place (.file data)) place

/-- A file is written below a directory, where there is none. -/
theorem Place.Writable.exists_dir {found : Place} {place : List Name}
    (h : found.Writable d place) :
    ∃ dir x, place = dir ++ [x] ∧ d.DirAt dir ∧ ¬ d.DirAt place := by
  cases h with
  | @absent dir x hw hfree =>
    refine ⟨dir, x, rfl, dirAt_of_isWritable hw, ?_⟩
    rintro ⟨l, hl⟩
    simp [hfree] at hl
  | @present _ data hn =>
    have hkind := kindAt_of_get? hn
    rcases List.eq_nil_or_concat' place with rfl | ⟨dir, x, rfl⟩
    · obtain ⟨l, hroot⟩ := dirAt_nil d
      simp [hkind, Node.kind] at hroot
    · refine ⟨dir, x, rfl, dirAt_of_append (q := [x]) (by simp [hkind]) (by simp), ?_⟩
      rintro ⟨l, hl⟩
      simp [hkind, Node.kind] at hl

/-- A file is written where the look-up of its path ends. -/
theorem exists_writable_of_openForWriting {place : List Name} {executable : Bool}
    (h : d.openForWriting cwd p = .ok (place, executable)) :
    p.hasTrailingSlash = false ∧ d.Followable cwd p ∧
      ∃ found, followLinks d.root true maxLinks (origin cwd p) p.steps = .ok found ∧
        found.Writable d place := by
  rw [openForWriting] at h
  obtain ⟨found, hr, hopened⟩ := exists_of_bind_eq_ok h
  obtain ⟨hfol, hf⟩ := resolveSteps_eq_ok_iff.mp hr
  cases hs : p.hasTrailingSlash with
  | true =>
    rw [hs] at hopened
    cases found with
    | absent dir x => cases hopened
    | present place' n => cases n <;> cases hopened
  | false =>
    rw [hs] at hopened
    refine ⟨rfl, hfol, found, hf, ?_⟩
    cases found with
    | absent dir x =>
      obtain ⟨-, -, hfree, -⟩ := route_of_absent hfol.start hf
      cases hw : d.isWritable dir with
      | false =>
        simp only [hw] at hopened
        cases hopened
      | true =>
        simp only [hw] at hopened
        cases hopened
        exact .absent hw hfree
    | present place' n =>
      obtain ⟨-, hn, -⟩ := followLinks_eq_present_iff.mp hf
      cases n with
      | dir l es => cases hopened
      | link t => cases hopened
      | file data =>
        cases hopened
        exact .present hn

/-- The new file is all that changes. -/
theorem kindAt_putFile {dir : List Name} {x : Name} {bytes : ByteArray} {executable : Bool}
    (hdir : d.DirAt dir) (hnot : ¬ d.DirAt (dir ++ [x])) (q : List Name) :
    (d.putFile (dir ++ [x]) bytes executable).kindAt q =
      if q = dir ++ [x] then some (.file ⟨bytes, d.clock, executable⟩) else d.kindAt q := by
  rw [putFile, kindAt_tick]
  exact kindAt_put_leaf rfl hdir hnot q

/-- **A copy of a file** is written where the look-up of its path ends. -/
theorem exists_of_copyFile {source : Path} (h : d.copyFile cwd source p = .ok d') :
    ∃ original data place executable, d.locate cwd source true = .ok (original, .file data) ∧
      d.openForWriting cwd p = .ok (place, executable) ∧
      d' = d.putFile place (if place = original then ByteArray.empty else data.bytes)
        data.executable := by
  rw [copyFile] at h
  obtain ⟨⟨original, n⟩, hl, hread⟩ := exists_of_bind_eq_ok h
  cases n with
  | dir l es => cases hread
  | link t => cases hread
  | file data =>
    obtain ⟨⟨place, executable⟩, ho, hwritten⟩ := exists_of_bind_eq_ok hread
    exact ⟨original, data, place, executable, hl, ho, (Except.ok.inj hwritten).symm⟩

/-- A copy of a file changes nothing else. -/
theorem exists_place_of_copyFile {source : Path} (h : d.copyFile cwd source p = .ok d') :
    ∃ place executable data, d.openForWriting cwd p = .ok (place, executable) ∧
      ∀ q, d'.kindAt q = if q = place then some (.file data) else d.kindAt q := by
  obtain ⟨original, data, place, executable, -, ho, rfl⟩ := exists_of_copyFile h
  obtain ⟨-, -, found, -, hw⟩ := exists_writable_of_openForWriting ho
  obtain ⟨dir, x, rfl, hdir, hnot⟩ := hw.exists_dir
  exact ⟨dir ++ [x], executable, _, ho, fun q => kindAt_putFile hdir hnot q⟩

end

/-! ### Copying trees -/

/-- No file is copied to a path itself, continued with nothing. -/
theorem ne_nil_of_copyFile {d d' : Disk} {cwd names : List Name} {source target : Path}
    (h : d.copyFile cwd source (target.join (Path.ofJoin names)) = .ok d') : names ≠ [] := by
  rintro rfl
  obtain ⟨place, executable, data, ho, -⟩ := exists_place_of_copyFile h
  obtain ⟨hslash, hfol, -⟩ := exists_writable_of_openForWriting ho
  simp [Path.hasTrailingSlash_join_nil hfol.notEmpty] at hslash

/-- An item that was copied is a directory that was made, or a copy of a file. -/
theorem copyItem_eq_ok {d d' : Disk} {cwd : List Name} {target : Path} {item : WalkItem} {b : Bool}
    (h : d.copyItem cwd target item = (.ok b, d')) :
    item.node.isDir = true ∧ d' = (d.makeDirAll cwd (target.join (Path.ofJoin item.below))).2 ∨
      item.node.isDir = false ∧
        (d.makeParents cwd (target.join (Path.ofJoin item.below))).2.copyFile cwd item.path
          (target.join (Path.ofJoin item.below)) = .ok d' := by
  have hjoin : target.join ⟨Text.join "/" (item.below.map Name.text)⟩ =
      target.join (Path.ofJoin item.below) := rfl
  rw [copyItem, hjoin] at h
  cases hdir : item.node.isDir with
  | true =>
    refine .inl ⟨rfl, ?_⟩
    simp only [hdir, if_true] at h
    split at h
    · next hd =>
      rw [hd]
      exact (Prod.mk.inj h).2.symm
    · simp at h
  | false =>
    refine .inr ⟨rfl, ?_⟩
    simp only [hdir, Bool.false_eq_true, if_false] at h
    split at h
    · simp at h
    · next d₁ hd =>
      rw [hd]
      split at h
      · next d₂ hc =>
        rw [hc]
        exact congrArg Except.ok (Prod.mk.inj h).2
      · simp at h

section

variable {d : Disk} {cwd : List Name} {target : Path} {I : Disk → Prop}

/-- What holds after directories were made and after an item was copied holds after it was copied
with the directories above it. -/
theorem copyItem_keeps (hmade : ∀ d p, I d → I (d.makeDirAll cwd p).2) {item : WalkItem}
    (hcopied : item.node.isDir = false → ∀ d d', I d →
      d.copyFile cwd item.path (target.join (Path.ofJoin item.below)) = .ok d' → I d')
    (h : I d) : I (d.copyItem cwd target item).2 := by
  have hjoin : target.join ⟨Text.join "/" (item.below.map Name.text)⟩ =
      target.join (Path.ofJoin item.below) := rfl
  rw [copyItem, hjoin]
  cases hdir : item.node.isDir with
  | true =>
    have hmade := hmade d (target.join (Path.ofJoin item.below)) h
    simp only [if_true]
    split
    · next hd => rwa [hd] at hmade
    · next hd => rwa [hd] at hmade
  | false =>
    have hparent : I (d.makeParents cwd (target.join (Path.ofJoin item.below))).2 := by
      rw [makeParents]
      split
      · exact hmade d _ h
      · exact h
    simp only [Bool.false_eq_true, if_false]
    split
    · next hd => rwa [hd] at hparent
    · next d₁ hd =>
      rw [hd] at hparent
      cases hc : d₁.copyFile cwd item.path (target.join (Path.ofJoin item.below)) with
      | error e => exact hparent
      | ok d₂ => exact hcopied hdir d₁ d₂ hparent hc

theorem copyItems_keeps (hmade : ∀ d p, I d → I (d.makeDirAll cwd p).2) {w : Walk}
    (hcopied : ∀ item, .ok item ∈ w → item.node.isDir = false → ∀ d d', I d →
      d.copyFile cwd item.path (target.join (Path.ofJoin item.below)) = .ok d' → I d')
    (n : ℕ) (h : I d) : I (copyItems cwd target w n d).2 := by
  induction w generalizing d n with
  | nil => exact h
  | cons i w ih =>
    have ih := fun n {d} => ih (d := d)
      (fun item hi => hcopied item (List.mem_cons_of_mem _ hi)) n
    cases i with
    | error fault => exact h
    | ok item =>
      have hitem := copyItem_keeps hmade (hcopied item (List.mem_cons_self ..)) h
      rw [copyItems]
      split
      · next hd => rwa [hd] at hitem
      · next hd =>
        rw [hd] at hitem
        exact ih (n + 1) hitem
      · next hd =>
        rw [hd] at hitem
        exact ih n hitem

/-- **What holds after directories were made and after a file was copied** holds after a tree was
copied. -/
theorem copyTree_keeps (hmade : ∀ d p, I d → I (d.makeDirAll cwd p).2) {source : Path}
    (hcopied : ∀ item, .ok item ∈ d.walk cwd source → item.node.isDir = false → ∀ d d', I d →
      d.copyFile cwd item.path (target.join (Path.ofJoin item.below)) = .ok d' → I d')
    (h : I d) : I (d.copyTree cwd source target).2 := by
  rw [copyTree]
  split
  · next l es hl =>
    have hdir := hmade d (target.join ⟨""⟩) h
    have hgrows := makeDirAll_grows d cwd (target.join ⟨""⟩)
    split
    · next hd => rwa [hd] at hdir
    · next d₁ hd =>
      rw [hd] at hdir hgrows
      -- what is listed now and no directory was there before
      refine copyItems_keeps hmade (fun item hitem hfile => ?_) 0 hdir
      exact hcopied item (mem_walk_of_grows hgrows hl (List.mem_of_mem_tail hitem) hfile) hfile
  · exact copyItems_keeps hmade hcopied 0 h

end

end SuiteGate.Disk
