import SuiteGate.Proofs.Disk.Separate
/-!
# Copying into a free place

When files are copied below a path that leads nowhere yet, a disk only changes in two ways: below
the end of the path there are new directories and the copied files, and elsewhere there are new
directories (`Disk.Staged`).  In particular no link comes about, so the path keeps its way.

Making directories and copying files keep a disk staged (`Staged.grows`, `Staged.of_copyFile`), and
so does copying a whole tree (`Staged.copyTree`).
-/

namespace SuiteGate.Disk

/-- From a base, a disk came about by making directories, and by putting files below the end of a
path, at names that may be copied. -/
structure Staged (base : Disk) (cwd : List Name) (target : Path) (Copied : List Name → Prop)
    (d : Disk) : Prop where
  outside : ∀ q, (∀ tree ∈ (base.wayTo cwd true target).goal, ¬ tree <+: q) →
    d.kindAt q = base.kindAt q ∨ base.kindAt q = none ∧ d.DirAt q
  inside : ∀ tree ∈ (base.wayTo cwd true target).goal, ∀ r,
    d.kindAt (tree ++ r) = none ∨ d.kindAt (tree ++ r) = some (.dir .full) ∨
      Copied r ∧ ∃ data, d.kindAt (tree ++ r) = some (.file data)

section

variable {base d d' : Disk} {cwd : List Name} {target : Path} {Copied : List Name → Prop}

theorem kindAt_below_goal (hfree : ∀ tree ∈ (base.wayTo cwd true target).goal,
    base.kindAt tree = none) : ∀ tree ∈ (base.wayTo cwd true target).goal, ∀ r,
      base.kindAt (tree ++ r) = none :=
  fun tree htree r => kindAt_eq_none_below (hfree tree htree) (List.prefix_append tree r)

theorem Staged.start (hfree : ∀ tree ∈ (base.wayTo cwd true target).goal,
    base.kindAt tree = none) : Staged base cwd target Copied base :=
  ⟨fun _ _ => .inl rfl, fun tree htree r => .inl (kindAt_below_goal hfree tree htree r)⟩

/-- Making directories keeps a disk staged. -/
theorem Staged.grows (h : Staged base cwd target Copied d) (hg : d.Grows d') :
    Staged base cwd target Copied d' := by
  refine ⟨fun q hq => ?_, fun tree htree r => ?_⟩
  · rcases h.outside q hq with hsame | ⟨hnone, hdir⟩
    · rcases hg q with hsame' | ⟨hnone, hmade⟩
      · exact .inl (hsame'.trans hsame)
      · exact .inr ⟨hsame.symm.trans hnone, _, hmade⟩
    · exact .inr ⟨hnone, hg.dirAt hdir⟩
  · rcases hg (tree ++ r) with hsame | ⟨-, hmade⟩
    · rw [hsame]
      exact h.inside tree htree r
    · exact .inr (.inl hmade)

section

variable (hfree : ∀ tree ∈ (base.wayTo cwd true target).goal, base.kindAt tree = none)

include hfree

/-- A way on which nothing is missing is the same in the base. -/
theorem Staged.route_eq (h : Staged base cwd target Copied d) {final : Bool} {k : ℕ}
    {here : List Name} {steps : List Path.Step}
    (hgoal : (d.route final k here steps).goal ≠ none)
    (hmet : ∀ q ∈ (d.route final k here steps).met, d.kindAt q ≠ none) :
    base.route final k here steps = d.route final k here steps := by
  refine route_eq_of_alike fun q hq => ?_
  by_cases hout : ∀ tree ∈ (base.wayTo cwd true target).goal, ¬ tree <+: q
  · rcases h.outside q hout with hsame | ⟨hnone, hdir⟩
    · exact .inl (.inl hsame.symm)
    · exact .inl (.inr (.inl ⟨.inr hdir, .inl hnone⟩))
  · obtain ⟨tree, htree, r, rfl⟩ : ∃ tree ∈ (base.wayTo cwd true target).goal, tree <+: q := by
      simpa using hout
    have hbase := kindAt_below_goal hfree tree htree r
    rcases h.inside tree htree r with hnone | hdir | ⟨-, hfile⟩
    · exact absurd hnone (hmet _ hq)
    · exact .inl (.inr (.inl ⟨.inr ⟨_, hdir⟩, .inl hbase⟩))
    · -- a copied file can only be the end of the way
      exact .inr ⟨hgoal, hfile, .inl hbase⟩

/-- What the target leads to stands at the end of its way in the base. -/
theorem Staged.goal_of_locate (h : Staged base cwd target Copied d) {place : List Name} {n : Node}
    (hl : d.locate cwd target true = .ok (place, n)) :
    (base.wayTo cwd true target).goal = some place := by
  obtain ⟨-, hgoal, -, hmet⟩ := locate_eq_ok_iff.mp hl
  have hsame : base.wayTo cwd true target = d.wayTo cwd true target :=
    h.route_eq hfree (by rw [← wayTo, hgoal]; simp) hmet
  rw [hsame, hgoal]

/-- Names below the target lead below the end of its way. -/
theorem Staged.place_of_names (h : Staged base cwd target Copied d) {names : List Name}
    {found : Place} {place : List Name} (hnames : names ≠ [])
    (hstart : d.DirAt (origin cwd target))
    (hf : followLinks d.root true maxLinks (origin cwd target)
      (target.steps ++ names.map .down) = .ok found)
    (hw : found.Writable d place) :
    ∃ tree ∈ (base.wayTo cwd true target).goal, place = tree ++ names := by
  -- the target leads to a directory `g`, and the names go on from there
  obtain ⟨g, n, k', hprefix, hdir, hrest⟩ :=
    exists_dir_of_followLinks_append (by simpa using hnames) hstart hf
  obtain ⟨hgoal, hn, hmet⟩ := followLinks_eq_present_iff.mp hprefix
  have hgdir : d.DirAt g := dirAt_iff.mpr ⟨n, hn, hdir⟩
  have hsame : base.route true maxLinks (origin cwd target) target.steps =
      d.route true maxLinks (origin cwd target) target.steps :=
    h.route_eq hfree (by simp [hgoal]) hmet
  have hnotFile : ∀ data, base.kindAt g ≠ some (.file data) := by
    obtain ⟨l, hl⟩ := hgdir
    intro data hdata
    by_cases hout : ∀ tree ∈ (base.wayTo cwd true target).goal, ¬ tree <+: g
    · rcases h.outside g hout with hsame | ⟨hnone, -⟩
      · rw [hl, hdata] at hsame
        simp at hsame
      · simp [hdata] at hnone
    · obtain ⟨tree, htree, r, rfl⟩ : ∃ tree ∈ (base.wayTo cwd true target).goal, tree <+: g := by
        simpa using hout
      simp [kindAt_below_goal hfree tree htree r] at hdata
  have htree : (base.wayTo cwd true target).goal = some g := by
    rw [wayTo_of_route_steps (hsame ▸ hgoal) hnotFile, hsame, hgoal]
  refine ⟨g, htree, ?_⟩
  -- below the end of the target's way there are no links to turn at
  have hlinks : ∀ q t, g <+: q → d.kindAt q ≠ some (.link t) := by
    rintro q t ⟨r, rfl⟩ hlink
    rcases h.inside g htree r with hnone | hl | ⟨-, data, hdata⟩
    · simp [hnone] at hlink
    · simp [hl] at hlink
    · simp [hdata] at hlink
  have hend : (d.route true k' g (names.map .down)).goal = some place := by
    cases hw with
    | absent hd hfree' => exact (route_of_absent hgdir hrest).1
    | present hd => exact (followLinks_eq_present_iff.mp hrest).1
  rcases route_names true k' names hlinks with hnone | hsome
  · simp [hend] at hnone
  · rw [hend, Option.some.injEq] at hsome
    exact hsome

/-- **Copying a file below the target** keeps a disk staged. -/
theorem Staged.of_copyFile (h : Staged base cwd target Copied d) {source p : Path}
    {names : List Name} (hsteps : p.steps = target.steps ++ names.map .down)
    (horigin : origin cwd p = origin cwd target) (hnames : names ≠ []) (hcopied : Copied names)
    (hc : d.copyFile cwd source p = .ok d') : Staged base cwd target Copied d' := by
  obtain ⟨place, executable, data, ho, hkinds⟩ := exists_place_of_copyFile hc
  obtain ⟨-, hfol, found, hf, hw⟩ := exists_writable_of_openForWriting ho
  rw [hsteps, horigin] at hf
  obtain ⟨tree, htree, rfl⟩ := h.place_of_names hfree hnames (horigin ▸ hfol.start) hf hw
  refine ⟨fun q hq => ?_, fun tree' htree' r => ?_⟩
  · have hne : q ≠ tree ++ names := by
      rintro rfl
      exact hq tree htree (List.prefix_append _ _)
    have hout := h.outside q hq
    rw [DirAt, hkinds, if_neg hne]
    exact hout
  · obtain rfl : tree = tree' := by
      rw [Option.mem_def] at htree htree'
      simpa [htree] using htree'
    rw [hkinds]
    by_cases hr : tree ++ r = tree ++ names
    · -- this is the copied file
      rw [if_pos hr]
      rw [List.append_cancel_left_eq] at hr
      exact .inr (.inr ⟨hr ▸ hcopied, data, rfl⟩)
    · rw [if_neg hr]
      exact h.inside tree htree r

/-- **Copying a tree below the target** keeps a disk staged. -/
theorem Staged.copyTree (h : Staged base cwd target Copied d) {source : Path}
    (hcopied : ∀ rel n, d.Reaches cwd source rel n → n.isDir = false → rel ≠ [] → Copied rel) :
    Staged base cwd target Copied (d.copyTree cwd source target).2 := by
  refine copyTree_keeps (fun _ p hd => hd.grows (makeDirAll_grows _ cwd p))
    (fun item hi hdir d₁ d₂ hd hc => ?_) h
  have hrel := Path.isAbsolute_ofJoin item.below
  have hne := ne_nil_of_copyFile hc
  have hsteps : (target.join (Path.ofJoin item.below)).steps =
      target.steps ++ item.below.map .down := by
    rw [Path.steps_join hrel, Path.steps_ofJoin]
  exact hd.of_copyFile hfree hsteps (origin_join hrel) hne
    (hcopied _ _ (reaches_of_mem_walk hi hne) hdir hne) hc

/-- **Copying a file into the target** keeps a disk staged. -/
theorem Staged.copyInto (h : Staged base cwd target Copied d) {file : Path}
    (hcopied : ∀ x : Name, file.fileName? = some x.text → Copied [x]) :
    Staged base cwd target Copied (d.copyInto cwd file target).2 := by
  rw [Disk.copyInto]
  cases hname : file.fileName? with
  | none => exact h
  | some name =>
    obtain ⟨x, rfl⟩ := Path.exists_name_of_fileName? hname
    have hmade := h.grows (makeDirAll_grows d cwd target)
    simp only
    split
    · next hd => rwa [hd] at hmade
    · next d₁ hd =>
      rw [hd] at hmade
      cases hc : d₁.copyFile cwd file (target.child x.text) with
      | error e => exact hmade
      | ok d₂ =>
        have horigin : origin cwd (target.child x.text) = origin cwd target := by
          rw [Path.child_eq, origin_join (Path.isAbsolute_ofJoin _)]
        exact hmade.of_copyFile hfree (Path.steps_child target x) horigin
          (List.cons_ne_nil x []) (hcopied x hname) hc

end

/-! ### Beside the target -/

/-- **A path that avoids the target** and leads nowhere in the base reaches only directories. -/
theorem Staged.isDir_of_reaches (h : Staged base cwd target Copied d) {p : Path}
    (hp : base.Avoids cwd p target) (htarget : base.Avoids cwd target p)
    (hfree : ∀ tree ∈ (base.wayTo cwd true p).goal, base.kindAt tree = none)
    {rel : List Name} {n : Node} (hr : d.Reaches cwd p rel n) : n.isDir = true := by
  obtain ⟨place, top, hl, -, hn⟩ := hr.exists_place
  obtain ⟨-, hgoal, -, -⟩ := locate_eq_ok_iff.mp hl
  have hway : d.wayTo cwd true p = base.wayTo cwd true p := by
    refine route_eq_of_alike fun q hq => .inl ?_
    have hout : ∀ tree ∈ (base.wayTo cwd true target).goal, ¬ tree <+: q := fun tree htree =>
      hp true true tree htree q (mem_trail_of_met hq)
    rcases h.outside q hout with hsame | ⟨hnone, hdir⟩
    · exact .inl hsame
    · exact .inr (.inl ⟨.inl hnone, .inr hdir⟩)
  rw [hway] at hgoal
  have hout : ∀ tree ∈ (base.wayTo cwd true target).goal, ¬ tree <+: place ++ rel :=
    fun tree htree => hp.not_prefix_append htarget hgoal htree rel
  have hbase := kindAt_below_goal hfree place hgoal rel
  rcases h.outside _ hout with hsame | ⟨-, l, hl'⟩
  · rw [kindAt_of_get? hn, hbase] at hsame
    simp at hsame
  · rw [kindAt_of_get? hn, Option.some.injEq] at hl'
    exact Node.isDir_iff.mpr ⟨l, hl'⟩

end

end SuiteGate.Disk
