import SuiteGate.Proofs.Disk.Landing
/-!
# Making directories

A directory is made with those above it that are missing.  They are places on the way of its path
(`growsAt_of_makeDirAll`), and the path lands at the end of this way (`landsAt_of_makeDirAll`).

It can be made (`Makeable.makeDirAll`) if what is there on the way is a directory or a link to one
(`Disk.LeadsOn`), every directory in which a name is missing on the way is writable, and the way is
not blocked by too many links.  A dot at the end is no name under
which a directory could be made.
-/

namespace SuiteGate.Disk

/-! ### What is made -/

/-- The way of the steps along a path. -/
def passage (d : Disk) (cwd : List Name) (p : Path) : Route :=
  d.route true maxLinks (origin cwd p) p.steps

theorem passage_join_nil (d : Disk) (cwd : List Name) (p : Path) :
    d.passage cwd (p.join (Path.ofJoin [])) = d.passage cwd p := by
  rw [passage, passage, Path.steps_join_nil, origin_join (Path.isAbsolute_ofJoin _)]

/-- Directories were made at some of these places, where nothing stood, and all else is as
before. -/
structure GrowsAt (d : Disk) (places : List (List Name)) (d' : Disk) : Prop where
  kinds : ∀ q, d'.kindAt q = d.kindAt q ∨
    d.kindAt q = none ∧ q ∈ places ∧ d'.kindAt q = some (.dir .full)
  kept : ∀ q, d.kindAt q ≠ none → (∀ m ∈ places, d.kindAt m = none → ¬ q <+: m) →
    d'.get? q = d.get? q

section

variable {base d d' : Disk} {cwd : List Name} {p target : Path} {place : List Name}

theorem GrowsAt.refl (d : Disk) (places : List (List Name)) : d.GrowsAt places d :=
  ⟨fun _ => .inl rfl, fun _ _ _ => rfl⟩

theorem GrowsAt.grows {places : List (List Name)} (h : d.GrowsAt places d') : d.Grows d' :=
  fun q => (h.kinds q).imp_right fun hnew => ⟨hnew.1, hnew.2.2⟩

/-- **One more directory** at one of the places. -/
theorem GrowsAt.makeDir {places : List (List Name)} (h : base.GrowsAt places d)
    (hmade : d.makeDir cwd p = .ok d')
    (hmem : ∀ dir x, d.resolveSteps cwd p p.steps false = .ok (.absent dir x) →
      dir ++ [x] ∈ places) : base.GrowsAt places d' := by
  obtain ⟨dir, x, hr, -, rfl⟩ := exists_absent_of_makeDir hmade
  obtain ⟨hfol, hf⟩ := resolveSteps_eq_ok_iff.mp hr
  obtain ⟨-, hdir, hfree, -⟩ := route_of_absent hfol.start hf
  have hplace := hmem dir x hr
  have hbase : base.kindAt (dir ++ [x]) = none := by
    rcases h.kinds (dir ++ [x]) with hsame | ⟨hnone, -⟩
    · exact hsame.symm.trans hfree
    · exact hnone
  refine ⟨fun q => ?_, fun q hq hout => ?_⟩
  · rw [kindAt_tick, kindAt_of_makeDir hdir hfree]
    split
    · next hnew => exact .inr ⟨hnew ▸ hbase, hnew ▸ hplace, rfl⟩
    · exact h.kinds q
  · -- below the new directory there was nothing, and above it nothing is kept
    have happart : Apart (dir ++ [x]) q :=
      ⟨fun hin => hq (kindAt_eq_none_below hbase hin), hout _ hplace hbase⟩
    rw [get?_tick, get?_put_of_apart happart, h.kept q hq hout]

theorem Grows.passage_eq (h : d.Grows d') : d'.passage cwd p = d.passage cwd p :=
  route_eq_of_alike fun q _ => .inl (h.alike q)

/-- A path is the first part of another. -/
def StartOf (cwd : List Name) (p target : Path) : Prop :=
  origin cwd p = origin cwd target ∧ ∃ rest, target.steps = p.steps ++ rest

theorem StartOf.refl (cwd : List Name) (p : Path) : StartOf cwd p p :=
  ⟨rfl, [], (List.append_nil _).symm⟩

theorem StartOf.parent? (h : StartOf cwd p target) {q : Path} (hq : p.parent? = some q) :
    StartOf cwd q target := by
  obtain ⟨horigin, rest, hrest⟩ := h
  obtain ⟨more, hmore, -⟩ := Path.steps_parent? hq
  refine ⟨?_, more ++ rest, by rw [hrest, hmore, List.append_assoc]⟩
  rw [← horigin, origin, origin, Path.isAbsolute_parent? hq]

/-- **The way of a first part** is not blocked, and comes by nothing else. -/
theorem StartOf.passage (h : StartOf cwd p target) (hgoal : (d.passage cwd target).goal ≠ none) :
    (d.passage cwd p).goal ≠ none ∧ (d.passage cwd p).met ⊆ (d.passage cwd target).met := by
  obtain ⟨horigin, rest, hrest⟩ := h
  have htarget : d.passage cwd target =
      d.route true maxLinks (origin cwd p) (p.steps ++ rest) := by
    rw [Disk.passage, hrest, horigin]
  rw [htarget] at hgoal ⊢
  by_cases hnil : rest = []
  · rw [hnil, List.append_nil] at hgoal ⊢
    exact ⟨hgoal, List.Subset.refl _⟩
  · rcases route_append d true maxLinks (origin cwd p) p.steps hnil with
      ⟨hnone, -⟩ | ⟨g, k, hg, heq⟩
    · exact absurd hnone hgoal
    · rw [heq, Disk.passage, hg]
      exact ⟨by simp, List.subset_append_left _ _⟩

/-- What is free where a path leads is a place on its way. -/
theorem mem_passage_of_absent {dir : List Name} {x : Name} (hstart : d.DirAt (origin cwd p))
    (hf : followLinks d.root false maxLinks (origin cwd p) p.steps = .ok (.absent dir x)) :
    dir ++ [x] ∈ (d.passage cwd p).met := by
  obtain ⟨hgoal, -, hfree, -⟩ := route_of_absent hstart hf
  -- as nothing stands there, it does not matter whether a link at the end is followed
  rcases route_true_or_stopped d maxLinks (origin cwd p) p.steps with
    hsame | ⟨stop, target, hstop, hlink, -⟩
  · rw [passage, hsame]
    exact mem_met_of_absent hf
  · obtain rfl : stop = dir ++ [x] := Option.some.inj (hstop.symm.trans hgoal)
    cases hfree.symm.trans hlink

/-- **Making a directory and those above it** makes directories on the way of the path. -/
theorem growsAt_of_makeDirAll (hgoal : (base.passage cwd target).goal ≠ none) :
    base.GrowsAt (base.passage cwd target).met (base.makeDirAll cwd target).2 := by
  refine makeDirAllFrom_keeps (P := fun p => StartOf cwd p target)
    (fun p q hp hq => hp.parent? hq) ?_ _ (.refl cwd target) (.refl base _)
  rintro d d' p hp hd hmade
  have hway : d.passage cwd target = base.passage cwd target := hd.grows.passage_eq
  refine hd.makeDir hmade fun dir x hr => ?_
  obtain ⟨hfol, hf⟩ := resolveSteps_eq_ok_iff.mp hr
  rw [← hway] at hgoal ⊢
  exact (hp.passage hgoal).2 (mem_passage_of_absent hfol.start hf)

theorem makeDirAllFrom_grows {n : ℕ} (h : makeDirAllFrom cwd n d p = (.ok (), d')) :
    d.Grows d' := by
  have hkept : d.Grows (makeDirAllFrom cwd n d p).2 :=
    makeDirAllFrom_keeps (P := fun _ => True) (fun _ _ _ _ => trivial)
      (fun _ _ _ _ hd hmade => hd.trans (grows_of_makeDir hmade)) n trivial (.refl d)
  rwa [h] at hkept

/-- A path lands at the directory that was made. -/
theorem exists_landsAt_of_makeDirAllFrom {n : ℕ} (hstart : d.DirAt (origin cwd p))
    (h : makeDirAllFrom cwd n d p = (.ok (), d')) : ∃ place, d'.LandsAt cwd p place := by
  by_cases hempty : p.text.isEmpty = true
  · -- the empty path asks for nothing
    have hsteps : p.steps = [] := by
      rw [Path.steps_eq, String.isEmpty_iff.mp hempty]
      rfl
    have hstart' := (makeDirAllFrom_grows h).dirAt hstart
    obtain ⟨n, hn, hdir⟩ := dirAt_iff.mp hstart'
    refine ⟨origin cwd p, ?_, hstart', n, hdir, ?_⟩
    · rw [String.isEmpty_iff.mp hempty]
      rfl
    · rw [hsteps, followLinks_nil, hn]
  · exact landsAt_of_isDir (isDir_of_makeDirAllFrom (by simpa using hempty) h)

/-- **A directory that was made** is where the way of its path ends. -/
theorem landsAt_of_makeDirAll (hstart : d.DirAt (origin cwd p))
    (hgoal : (d.passage cwd p).goal = some place) (h : d.makeDirAll cwd p = (.ok (), d')) :
    d'.LandsAt cwd p place := by
  obtain ⟨g, hg⟩ := exists_landsAt_of_makeDirAllFrom hstart h
  obtain ⟨n, -, hleads⟩ := hg.leads
  have hend := (followLinks_eq_present_iff.mp hleads).1
  rw [← passage, (makeDirAllFrom_grows h).passage_eq, hgoal] at hend
  exact Option.some.inj hend ▸ hg

end

/-! ### When a directory can be made -/

/-- A way does not depend on how many links it may turn at, if it turns at no more. -/
theorem route_eq_of_goal_ne_none {d : Disk} {final : Bool} {k k' : ℕ} {here : List Name}
    {steps : List Path.Step} (hk : (d.route final k here steps).goal ≠ none)
    (hk' : (d.route final k' here steps).goal ≠ none) :
    d.route final k' here steps = d.route final k here steps := by
  induction k, here, steps using route_induction d final generalizing k' with
  | nil k here => rw [route_nil, route_nil]
  | stay k here rest ih =>
    rw [route_stay] at hk hk' ⊢
    rw [route_stay, ih hk hk']
  | up k here rest ih =>
    rw [route_up] at hk hk' ⊢
    rw [route_up, ih hk hk']
  | down k here x rest hp ih =>
    rw [route_down hp] at hk hk' ⊢
    rw [route_down hp, ih hk hk']
  | file k here x rest data hfile => rw [route_file hfile, route_file hfile]
  | stop k here x target hf hlink =>
    subst hf
    rw [route_stop hlink, route_stop hlink]
  | turn k here x rest target hlink hgo ih =>
    cases k' with
    | zero =>
      rw [route_lost hlink hgo] at hk'
      exact absurd rfl hk'
    | succ k' =>
      rw [route_turn hlink hgo] at hk hk' ⊢
      rw [route_turn hlink hgo, ih hk hk']
  | lost here x rest target hlink hgo =>
    rw [route_lost hlink hgo] at hk
    exact absurd rfl hk

/-- At a place there is a directory, or a link that leads to one. -/
def LeadsOn (d : Disk) (place : List Name) : Prop :=
  d.DirAt place ∨ ∃ target, d.kindAt place = some (.link target) ∧
    d.isDir place.dropLast target = true

theorem LeadsOn.grows {d d' : Disk} {place : List Name} (h : d.LeadsOn place) (hg : d.Grows d') :
    d'.LeadsOn place := by
  rcases h with hdir | ⟨target, hlink, hleads⟩
  · exact .inl (hg.dirAt hdir)
  · rcases hg place with hsame | ⟨hnone, -⟩
    · exact .inr ⟨target, hsame.trans hlink, isDir_of_grows hg hleads⟩
    · cases hnone.symm.trans hlink

section

variable {d d' : Disk} {cwd : List Name} {p target : Path} {place : List Name}

/-- A look-up that follows the target of a link to a directory finds the directory, if the links that
are left are enough for the way. -/
theorem exists_followLinks_of_isDir {k : ℕ} {dir : List Name}
    (hgoal : (d.route true k (origin dir target) (stepsOf target)).goal ≠ none)
    (hdir : d.isDir dir target = true) :
    ∃ g n, followLinks d.root true k (origin dir target) (stepsOf target) = .ok (.present g n) ∧
      n.isDir = true := by
  obtain ⟨n, hn, hndir⟩ := isDir_iff.mp hdir
  obtain ⟨g, hl⟩ := stat_eq_ok_iff.mp hn
  obtain ⟨-, hend, hget, hall⟩ := locate_eq_ok_iff.mp hl
  have hopen := ne_of_eq_of_ne hend (Option.some_ne_none g)
  rw [wayTo] at hopen
  rw [wayTo, route_eq_of_goal_ne_none hgoal hopen] at hend hall
  exact ⟨g, n, followLinks_eq_present_iff.mpr ⟨hend, hget, hall⟩, hndir⟩

/-- **What a look-up finds** that can go on at all that is there: a free name, a directory, though
by a link at its end, or a name that is missing on the way. -/
theorem followLinks_cases {k : ℕ} {here : List Name} {steps : List Path.Step}
    (hhere : d.DirAt here) (hgoal : (d.route true k here steps).goal ≠ none)
    (hmet : ∀ q ∈ (d.route true k here steps).met, d.kindAt q ≠ none → d.LeadsOn q) :
    (∃ dir x, followLinks d.root false k here steps = .ok (.absent dir x)) ∨
      (∃ g n g' n', followLinks d.root false k here steps = .ok (.present g n) ∧
        followLinks d.root true k here steps = .ok (.present g' n') ∧ n'.isDir = true) ∨
      followLinks d.root false k here steps = .error .notFound := by
  induction k, here, steps using route_induction d true with
  | nil k here =>
    obtain ⟨n, hn, hdir⟩ := dirAt_iff.mp hhere
    refine .inr (.inl ⟨here, n, here, n, ?_, ?_, hdir⟩) <;> rw [followLinks_nil, hn]
  | stay k here rest ih =>
    rw [route_stay] at hgoal hmet
    rw [followLinks_stay, followLinks_stay]
    exact ih hhere hgoal hmet
  | up k here rest ih =>
    rw [route_up] at hgoal hmet
    rw [followLinks_up, followLinks_up]
    exact ih hhere.dropLast hgoal hmet
  | down k here x rest hp ih =>
    rcases hp with hfree | hdir
    · rw [followLinks_missing hfree]
      cases rest with
      | nil => exact .inl ⟨here, x, rfl⟩
      | cons s rest => exact .inr (.inr rfl)
    · rw [route_down (.inr hdir)] at hgoal hmet
      rw [followLinks_dir hdir, followLinks_dir hdir]
      exact ih hdir hgoal fun q hq => hmet q (List.mem_cons_of_mem _ hq)
  | file k here x rest data hfile =>
    -- nothing leads on at a file
    have hon := hmet (here ++ [x]) (by rw [route_file hfile]; simp) (by simp [hfile])
    rcases hon with ⟨l, hl⟩ | ⟨target, hlink, -⟩
    · cases hfile.symm.trans hl
    · cases hfile.symm.trans hlink
  | stop k here x target hf hlink => cases hf
  | turn k here x rest target hlink hgo ih =>
    rw [route_turn hlink hgo] at hgoal hmet
    cases rest with
    | cons s rest =>
      rw [followLinks_turn hlink (.inl (List.cons_ne_nil s rest)), followLinks_turn hlink hgo]
      exact ih (dirAt_origin hhere target) hgoal fun q hq => hmet q (List.mem_cons_of_mem _ hq)
    | nil =>
      -- the look-up stops at the link, which leads to a directory
      rw [List.append_nil] at hgoal
      obtain ⟨l, hl⟩ | ⟨target', hlink', hdir⟩ := hmet _ (List.mem_cons_self ..) (by simp [hlink])
      · cases hlink.symm.trans hl
      obtain rfl : target = target' := by simpa [hlink] using hlink'
      rw [List.dropLast_concat] at hdir
      obtain ⟨g, n, hfollow, hndir⟩ := exists_followLinks_of_isDir hgoal hdir
      refine .inr (.inl ⟨_, _, g, n, followLinks_stop hlink, ?_, hndir⟩)
      rw [followLinks_turn hlink hgo, List.append_nil, hfollow]
  | lost here x rest target hlink hgo =>
    rw [route_lost hlink hgo] at hgoal
    exact absurd rfl hgoal

/-- A path whose directory can be made: it can be followed, its way is not blocked, what is there on
the way leads on, and where a name is missing in a directory, the directory is writable. -/
structure Makeable (d : Disk) (cwd : List Name) (p : Path) : Prop where
  noNul : p.text.toList.contains '\x00' = false
  start : d.DirAt (origin cwd p)
  open_ : (d.passage cwd p).goal ≠ none
  leadsOn : ∀ q ∈ (d.passage cwd p).met, d.kindAt q ≠ none → d.LeadsOn q
  writable : ∀ dir x, dir ++ [x] ∈ (d.passage cwd p).met → d.DirAt dir →
    d.kindAt (dir ++ [x]) = none → d.isWritable dir = true

theorem Makeable.grows (h : d.Makeable cwd p) (hg : d.Grows d') : d'.Makeable cwd p := by
  refine ⟨h.noNul, hg.dirAt h.start, hg.passage_eq ▸ h.open_, fun q hq hsome => ?_,
    fun dir x hmem hdir hfree => ?_⟩
  · rw [hg.passage_eq] at hq
    rcases hg q with hsame | ⟨-, hmade⟩
    · exact (h.leadsOn q hq (hsame ▸ hsome)).grows hg
    · exact .inl ⟨_, hmade⟩
  · rw [hg.passage_eq] at hmem
    have hbefore : d.kindAt (dir ++ [x]) = none := by
      by_contra hne
      exact hg.kindAt_ne_none hne hfree
    -- the directory was there before, or it was made
    obtain ⟨l, hl⟩ := hdir
    rcases hg dir with hsame | ⟨hnone, -⟩
    · exact hg.isWritable (.inl (h.writable dir x hmem ⟨l, hsame ▸ hl⟩ hbefore))
    · exact hg.isWritable (.inr ⟨hnone, by rw [hl]; simp⟩)

theorem Makeable.parent? (h : d.Makeable cwd p) {q : Path} (hq : p.parent? = some q) :
    d.Makeable cwd q := by
  have hstart : StartOf cwd q p := (StartOf.refl cwd p).parent? hq
  obtain ⟨hopen, hsub⟩ := hstart.passage h.open_
  refine ⟨?_, hstart.1 ▸ h.start, hopen, fun r hr => h.leadsOn r (hsub hr),
    fun dir x hmem => h.writable dir x (hsub hmem)⟩
  have hnul := h.noNul
  rw [List.contains_eq_mem, decide_eq_false_iff_not] at hnul ⊢
  exact fun hmem => hnul ((Path.toList_text_prefix_of_parent? hq).subset hmem)

/-- **Making such a directory** succeeds, finds it there, or misses a directory above it. -/
theorem Makeable.makeDir_cases (h : d.Makeable cwd p) (hp : p.text.isEmpty = false) :
    (∃ d', d.makeDir cwd p = .ok d') ∨
      d.makeDir cwd p = .error (.os .alreadyExists) ∧ d.isDir cwd p = true ∨
      d.makeDir cwd p = .error (.os .notFound) ∧
        followLinks d.root false maxLinks (origin cwd p) p.steps = .error .notFound := by
  have hfol : d.Followable cwd p := ⟨h.noNul, hp, h.start⟩
  rcases followLinks_cases h.start h.open_ h.leadsOn with
    ⟨dir, x, hf⟩ | ⟨g, n, g', n', hf, hf', hdir⟩ | hf
  · obtain ⟨-, hdir, hfree, -⟩ := route_of_absent h.start hf
    have hw := h.writable dir x (mem_passage_of_absent h.start hf) hdir hfree
    exact .inl ⟨_, makeDir_eq_ok (resolveSteps_eq_ok_iff.mpr ⟨hfol, hf⟩) hw⟩
  · have hlands : d.LandsAt cwd p g' := ⟨h.noNul, h.start, n', hdir, hf'⟩
    exact .inr (.inl ⟨makeDir_eq_error (resolveSteps_eq_ok_iff.mpr ⟨hfol, hf⟩), hlands.isDir hp⟩)
  · refine .inr (.inr ⟨?_, hf⟩)
    obtain ⟨n, hn, hdir⟩ := dirAt_iff.mp h.start
    obtain ⟨l, es, rfl⟩ := Node.exists_eq_dir hdir
    have hr : d.resolveSteps cwd p p.steps false = .error (.os .notFound) := by
      rw [resolveSteps, h.noNul, hp, if_neg Bool.false_ne_true, if_neg Bool.false_ne_true, hn]
      simp only [hf, Except.mapError]
    rw [makeDir, hr]
    rfl

/-- Below a directory nothing is missing but the last name, if no dot stands behind it. -/
theorem LandsAt.followLinks_ne_error {q : Path} (h : d.LandsAt cwd q place)
    (hq : p.parent? = some q) (hdot : ¬ p.EndsInDot) {e : OsError} :
    followLinks d.root false maxLinks (origin cwd p) p.steps ≠ .error e := by
  obtain ⟨idle, s, idle', hsteps, hidle, hidle'⟩ := Path.exists_step_of_parent? hq
  have horigin : origin cwd p = origin cwd q := by
    rw [origin, origin, Path.isAbsolute_parent? hq]
  have hmoves : ∀ {l : List Path.Step}, (∀ t ∈ l, t = .stay) → Path.moves l = [] := fun hl =>
    List.filter_eq_nil_iff.mpr fun t ht => by simp [hl t ht]
  obtain ⟨n, hdir, hleads⟩ := h.leads
  obtain ⟨k, hk⟩ := exists_followLinks_append hleads hdir
  -- what is behind the last step is idle
  have hend : ∀ {g}, d.DirAt g → followLinks d.root false k g idle' ≠ .error e := by
    intro g hg
    obtain ⟨m, hm, -⟩ := dirAt_iff.mp hg
    rw [← List.append_nil idle', followLinks_of_moves_eq_nil (hmoves hidle'), followLinks_nil, hm]
    simp
  rw [horigin, hsteps, hk false _ (by simp), followLinks_of_moves_eq_nil (hmoves hidle)]
  cases s with
  | stay => rw [followLinks_stay]; exact hend h.dirAt
  | up => rw [followLinks_up]; exact hend h.dirAt.dropLast
  | down x =>
    have hnil : idle' = [] := by
      by_contra hne
      exact hdot ⟨q.steps ++ idle, x, idle', by rw [hsteps, List.append_assoc], hne, hidle'⟩
    rw [hnil, followLinks_name]
    simp

/-- **Such a directory is made,** with those above it, if its path does not end in a dot behind a
name. -/
theorem Makeable.makeDirAllFrom {n : ℕ} (h : d.Makeable cwd p) (hdot : ¬ p.EndsInDot)
    (hn : p.text.length < n) : ∃ d', makeDirAllFrom cwd n d p = (.ok (), d') := by
  -- the induction is on the levels; a path is longer than the path above it
  induction n generalizing p with
  | zero => omega
  | succ n ih =>
    rw [Disk.makeDirAllFrom]
    by_cases hp : p.text.isEmpty = true
    · exact ⟨d, if_pos hp⟩
    rw [if_neg hp]
    have hp : p.text.isEmpty = false := by simpa using hp
    rcases h.makeDir_cases hp with ⟨d', hmade⟩ | ⟨hmade, hdir⟩ | ⟨hmade, hmissing⟩
    · exact ⟨d', by rw [hmade]⟩
    · have hother : (IoError.os .alreadyExists).isNotFound = false := rfl
      exact ⟨d, by simp [hmade, hdir, hother]⟩
    · rw [hmade]
      cases hq : p.parent? with
      | none =>
        -- a path without a path above it leads where it starts
        exfalso
        have hstay := Path.eq_stay_of_parent?_eq_none hq
        obtain ⟨m, hm, -⟩ := dirAt_iff.mp h.start
        rw [← List.append_nil p.steps, followLinks_of_moves_eq_nil, followLinks_nil, hm] at hmissing
        · cases hmissing
        · exact List.filter_eq_nil_iff.mpr fun t ht => by simp [hstay t ht]
      | some q =>
        have hlen := Path.length_parent? hq
        have hparent := h.parent? hq
        obtain ⟨d', hd'⟩ := ih hparent (Path.not_endsInDot_parent? hq) (by omega)
        obtain ⟨g, hlands⟩ := exists_landsAt_of_makeDirAllFrom hparent.start hd'
        have hnext := (h.grows (makeDirAllFrom_grows hd')).makeDir_cases hp
        rcases hnext with ⟨d'', hmade'⟩ | ⟨hmade', hdir'⟩ | ⟨-, hmissing'⟩
        · exact ⟨d'', by simp [IoError.isNotFound, hd', hmade']⟩
        · exact ⟨d', by simp [IoError.isNotFound, hd', hmade', hdir']⟩
        · exact absurd hmissing' (hlands.followLinks_ne_error hq hdot)

/-- **Such a directory is made,** unless its path ends in a dot and leads to none yet. -/
theorem Makeable.makeDirAll (h : d.Makeable cwd p)
    (hdot : p.EndsInDot → d.isDir cwd p = true) : ∃ d', d.makeDirAll cwd p = (.ok (), d') := by
  by_cases hends : p.EndsInDot
  · exact ⟨d, makeDirAll_of_isDir (hdot hends)⟩
  · exact h.makeDirAllFrom hends (Nat.lt_succ_self _)

/-- A separator behind a path does not change whether its directory can be made. -/
theorem Makeable.join_nil (h : d.Makeable cwd p) :
    d.Makeable cwd (p.join (Path.ofJoin [])) := by
  have horigin : origin cwd (p.join (Path.ofJoin [])) = origin cwd p :=
    origin_join (Path.isAbsolute_ofJoin _)
  have hway := passage_join_nil d cwd p
  exact ⟨by rw [Path.contains_nul_join_nil, h.noNul], horigin ▸ h.start, hway ▸ h.open_,
    hway ▸ h.leadsOn, hway ▸ h.writable⟩

end

end SuiteGate.Disk
