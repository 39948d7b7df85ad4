import SuiteGate.Proofs.Disk.Confined
import SuiteGate.Proofs.Disk.Shapes
/-!
# Making a directory anew

The last name of a path stands in a directory, and the way to that directory leads by nothing under
the name itself (`Disk.Approaches`).  If the path finds what stands there (`Disk.Seated`), then what
it leads to can be removed with all below it (`Seated.kindAt_removeTree`), and made anew with the
directories on the way to it and nothing else (`Approaches.founded`, `Founded.grounds`).

Once the directory above is there (`Disk.Opens`) and writable both succeed: removing a directory
under the name that nothing in it is kept of (`Opens.removeTree_eq`) and making it
(`Opens.makeDirAll`).
-/

namespace SuiteGate.Disk

/-- The way of a path up to its last name. -/
def approach (d : Disk) (cwd : List Name) (p : Path) : Route :=
  d.route true maxLinks (origin cwd p) p.steps.dropLast

/-- A path leads to a place and on to a name there, and by nothing under that name before. -/
structure Approaches (d : Disk) (cwd : List Name) (p : Path) (above : List Name) (x : Name) :
    Prop where
  last : p.steps.getLast? = some (.down x)
  goal : (d.approach cwd p).goal = some above
  apart : ∀ q ∈ origin cwd p :: (d.approach cwd p).met, ¬ above ++ [x] <+: q

/-- Such a path, that finds what stands under the name. -/
structure Seated (d : Disk) (cwd : List Name) (p : Path) (above : List Name) (x : Name) : Prop
    extends d.Approaches cwd p above x where
  found : d.kindAt (above ++ [x]) ≠ none → (d.locate cwd p false).isOk = true

/-- Such a path, if the directory above the name is there. -/
structure Opens (d : Disk) (cwd : List Name) (p : Path) (above : List Name) (x : Name) : Prop
    extends d.Approaches cwd p above x where
  followable : d.Followable cwd p
  leads : ∃ n, n.isDir = true ∧
    followLinks d.root true maxLinks (origin cwd p) p.steps.dropLast = .ok (.present above n)

section

variable {d d' : Disk} {cwd above : List Name} {p : Path} {x : Name}

instance (d : Disk) (cwd : List Name) (p : Path) (above : List Name) (x : Name) :
    Decidable (d.Seated cwd p above x) :=
  decidable_of_iff
    ((p.steps.getLast? = some (.down x) ∧ (d.approach cwd p).goal = some above ∧
      ∀ q ∈ origin cwd p :: (d.approach cwd p).met, ¬ above ++ [x] <+: q) ∧
      ((d.get? (above ++ [x])).isSome = true → (d.locate cwd p false).isOk = true))
    ⟨fun ⟨⟨h1, h2, h3⟩, h4⟩ => ⟨⟨h1, h2, h3⟩, fun hk => h4 (Option.isSome_iff_ne_none.mpr
      (mt kindAt_eq_none_iff.mpr hk))⟩,
      fun h => ⟨⟨h.last, h.goal, h.apart⟩, fun hk => h.found
        (mt kindAt_eq_none_iff.mp (Option.isSome_iff_ne_none.mp hk))⟩⟩

namespace Approaches

theorem steps_eq (h : d.Approaches cwd p above x) : p.steps = p.steps.dropLast ++ [.down x] :=
  (List.dropLast_append_getLast? _ h.last).symm

/-- The place above is not under the name, either. -/
theorem not_prefix_above : ¬ above ++ [x] <+: above :=
  fun h => absurd h.length_le (by simp)

/-- **A change that leaves alike** all that is not under the name leaves the way as it is. -/
theorem of_alike (h : d.Approaches cwd p above x)
    (hsame : ∀ q, ¬ above ++ [x] <+: q → d.Alike d' q) :
    d'.approach cwd p = d.approach cwd p ∧ d'.Approaches cwd p above x := by
  have hway : d'.approach cwd p = d.approach cwd p :=
    route_eq_of_alike fun q hq => .inl (hsame q (h.apart q (List.mem_cons_of_mem _ hq)))
  exact ⟨hway, h.last, hway ▸ h.goal, hway ▸ h.apart⟩

theorem isEmpty_text (h : d.Approaches cwd p above x) : p.text.isEmpty = false := by
  rw [Bool.eq_false_iff]
  intro hempty
  have hlast := h.last
  rw [Path.steps_eq, String.isEmpty_iff.mp hempty] at hlast
  cases hlast

/-- The path with a separator behind it has the same way. -/
theorem join_nil (h : d.Approaches cwd p above x) :
    d.approach cwd (p.join (Path.ofJoin [])) = d.approach cwd p ∧
      d.Approaches cwd (p.join (Path.ofJoin [])) above x := by
  have hsteps := Path.steps_join_nil p
  have horigin : origin cwd (p.join (Path.ofJoin [])) = origin cwd p :=
    origin_join (Path.isAbsolute_ofJoin _)
  have hway : d.approach cwd (p.join (Path.ofJoin [])) = d.approach cwd p := by
    rw [approach, approach, hsteps, horigin]
  exact ⟨hway, hsteps ▸ h.last, hway ▸ h.goal, hway ▸ horigin ▸ h.apart⟩

/-- Where the path ends is where the name leads to from the place above. -/
theorem exists_goal_last (h : d.Approaches cwd p above x) {final : Bool} {place : List Name}
    (hgoal : (d.route final maxLinks (origin cwd p) p.steps).goal = some place) :
    ∃ k, (d.route final k above [.down x]).goal = some place := by
  rw [h.steps_eq] at hgoal
  rcases route_append d final maxLinks (origin cwd p) p.steps.dropLast
    (List.cons_ne_nil (.down x) []) with ⟨hnone, -⟩ | ⟨g, k, hg, heq⟩
  · cases hnone.symm.trans hgoal
  · obtain rfl : g = above := Option.some.inj (hg.symm.trans h.goal)
    rw [heq] at hgoal
    exact ⟨k, hgoal⟩

/-- Where the path ends, a link at its end not followed. -/
theorem place_eq (h : d.Approaches cwd p above x) {place : List Name}
    (hgoal : (d.route false maxLinks (origin cwd p) p.steps).goal = some place) :
    place = above ++ [x] := by
  obtain ⟨k, hk⟩ := h.exists_goal_last hgoal
  rw [route_name] at hk
  exact (Option.some.inj hk).symm

end Approaches

/-! ### The directory above -/

namespace Opens

/-- **Where the path leads** if the directory above is there. -/
theorem resolveSteps_eq (h : d.Opens cwd p above x) :
    d.resolveSteps cwd p p.steps false =
      .ok (match d.get? (above ++ [x]) with
        | none => .absent above x
        | some n => .present (above ++ [x]) n) := by
  obtain ⟨n, hdir, hleads⟩ := h.leads
  obtain ⟨k, hgoes⟩ := exists_followLinks_append hleads hdir
  refine resolveSteps_eq_ok_iff.mpr ⟨h.followable, ?_⟩
  rw [h.steps_eq, hgoes _ _ (List.cons_ne_nil _ [])]
  exact followLinks_name x

/-- A change under the name does not matter for the directory above. -/
theorem of_kindAt_eq (h : d.Opens cwd p above x)
    (hsame : ∀ q, ¬ above ++ [x] <+: q → d'.kindAt q = d.kindAt q) :
    d'.Opens cwd p above x := by
  obtain ⟨hway, happroaches⟩ := h.toApproaches.of_alike fun q hq => .inl (hsame q hq)
  obtain ⟨n, hdir, hleads⟩ := h.leads
  obtain ⟨hgoal, hget, hmet⟩ := followLinks_eq_present_iff.mp hleads
  obtain ⟨m, hm, hk⟩ := kindAt_eq_some_iff.mp
    ((hsame above Approaches.not_prefix_above).trans (kindAt_of_get? hget))
  obtain ⟨l, hstart⟩ := h.followable.start
  have hstart' := hsame (origin cwd p) (h.apart _ (List.mem_cons_self ..))
  refine ⟨happroaches, ⟨h.followable.noNul, h.followable.notEmpty, l, hstart'.trans hstart⟩, m,
    Node.isDir_eq_of_kind_eq hk ▸ hdir, followLinks_eq_present_iff.mpr
      ⟨happroaches.goal, hm, fun q hq => ?_⟩⟩
  change q ∈ (d'.approach cwd p).met at hq
  rw [hway] at hq
  rw [hsame q (h.apart q (List.mem_cons_of_mem _ hq))]
  exact hmet q hq

/-- **The directory is made** in the one above it, and what stands apart from it is kept. -/
theorem makeDirAll (h : d.Opens cwd p above x) (hfree : d.kindAt (above ++ [x]) = none)
    (hw : d.isWritable above = true) :
    ∃ e, d.makeDirAll cwd p = (.ok (), e) ∧
      (∀ q, e.kindAt q = if q = above ++ [x] then some (.dir .full) else d.kindAt q) ∧
      ∀ q, Apart (above ++ [x]) q → e.get? q = d.get? q := by
  have hr : d.resolveSteps cwd p p.steps false = .ok (.absent above x) := by
    rw [h.resolveSteps_eq, kindAt_eq_none_iff.mp hfree]
  obtain ⟨hfol, hf⟩ := resolveSteps_eq_ok_iff.mp hr
  obtain ⟨-, hdir, -, -⟩ := route_of_absent hfol.start hf
  refine ⟨(d.put (above ++ [x]) Node.emptyDir Node.distinct_emptyDir).tick, ?_, fun q => ?_,
    fun q hq => ?_⟩
  · rw [Disk.makeDirAll, makeDirAllFrom, h.followable.notEmpty, if_neg Bool.false_ne_true,
      makeDir_eq_ok hr hw]
  · rw [kindAt_tick, kindAt_of_makeDir hdir hfree]
  · rw [get?_tick, get?_put_of_apart hq]

/-- **The directory is found.** -/
theorem locate_eq (h : d.Opens cwd p above x) {n : Node} (hn : d.get? (above ++ [x]) = some n)
    (hdir : n.isDir = true) (final : Bool) : d.locate cwd p final = .ok (above ++ [x], n) := by
  have habove : d.DirAt (above ++ [x]) := dirAt_iff.mpr ⟨n, hn, hdir⟩
  obtain ⟨m, hm, hleads⟩ := h.leads
  obtain ⟨k, hgoes⟩ := exists_followLinks_append hleads hm
  have hn' : d.root.get? (above ++ [x]) = some n := hn
  refine locate_eq_ok_iff.mpr ⟨h.followable, followLinks_eq_present_iff.mp ?_⟩
  -- a separator at the end only asks for a directory
  rw [stepsOf, h.steps_eq, List.append_assoc, hgoes _ _ (by simp), List.singleton_append,
    followLinks_dir habove]
  split
  · rw [followLinks_stay, followLinks_nil, hn]
  · rw [followLinks_nil, hn]

/-- **The directory is removed** with all that is in it, if nothing in it is kept. -/
theorem removeTree_eq (h : d.Opens cwd p above x) (hw : d.isWritable above = true)
    (hdir : d.DirAt (above ++ [x]))
    (hgoes : ∀ rel m, d.get? (above ++ [x] ++ rel) = some m → ¬ m.Keeps) :
    d.removeTree cwd p = (.ok (), (d.erase (above ++ [x])).tick) := by
  obtain ⟨n, hn, hndir⟩ := dirAt_iff.mp hdir
  obtain ⟨l, es, rfl⟩ := Node.exists_eq_dir hndir
  have hstrip : (Node.dir l es).strip.1 = true :=
    (Node.strip_fst_iff _ (Node.distinct_of_get? d.distinct hn)).mpr fun rel m hm =>
      hgoes rel m (by rw [get?_append_of_get? hn, hm])
  have hobstacle : d.obstacleToRemoval cwd p = none := by
    have hr := h.resolveSteps_eq
    rw [hn] at hr
    rw [obstacleToRemoval, h.last]
    simp only [isRemovable, namesLink, hr, List.dropLast_concat, hw]
    rfl
  rw [removeTree, removeDirAll, h.locate_eq hn rfl false]
  simp only [hstrip, hobstacle, if_true]

end Opens

/-- A path that leads to a directory finds the one above it. -/
theorem Approaches.opens (h : d.Approaches cwd p above x) (hdir : d.isDir cwd p = true) :
    d.Opens cwd p above x := by
  obtain ⟨n, hn, -⟩ := isDir_iff.mp hdir
  obtain ⟨place, hl⟩ := stat_eq_ok_iff.mp hn
  obtain ⟨hfol, hgoal, hget, hmet⟩ := locate_eq_ok_iff.mp hl
  have hway := route_steps_of_wayTo hgoal
  rw [← hway] at hgoal hmet
  -- the way to the end leads through a directory, and that is the one above
  have hall := followLinks_eq_present_iff.mpr ⟨hgoal, hget, hmet⟩
  rw [h.steps_eq] at hall
  obtain ⟨g, m, k, hpart, hmdir, -⟩ :=
    exists_dir_of_followLinks_append (List.cons_ne_nil _ []) hfol.start hall
  obtain ⟨hg, -⟩ := followLinks_eq_present_iff.mp hpart
  obtain rfl : g = above := Option.some.inj (hg.symm.trans h.goal)
  exact ⟨h, hfol, m, hmdir, hpart⟩

/-! ### Removing what stands there -/

/-- A link cannot be removed as a directory. -/
theorem ne_none_of_namesLink (hlast : p.steps.getLast? = some (.down x))
    (hlink : d.namesLink cwd p = true) : d.obstacleToRemoval cwd p ≠ none := by
  rw [obstacleToRemoval, hlast]
  simp only [hlink, if_true]
  split <;> simp

theorem removeTree_ne_ok_of_obstacle {place : List Name} {n : Node}
    (hl : d.locate cwd p false = .ok (place, n)) (hdir : n.isDir = true)
    (h : d.obstacleToRemoval cwd p ≠ none) : (d.removeTree cwd p).1 ≠ .ok () := by
  obtain ⟨e, he⟩ := Option.ne_none_iff_exists'.mp h
  obtain ⟨l, es, rfl⟩ := Node.exists_eq_dir hdir
  have hother := isNotFound_of_obstacleToRemoval he
  have hdenied : (IoError.os .permissionDenied).isNotFound = false := rfl
  rw [removeTree, removeDirAll, hl]
  simp only [he]
  cases (Node.dir l es).strip.1 <;> simp [hother, hdenied]

/-- **What a removal removes** is what the steps of the path lead to, a link at their end not
followed. -/
theorem removeTree_eq_ok (hlast : p.steps.getLast? = some (.down x))
    (h : (d.removeTree cwd p).1 = .ok ()) :
    (∃ e, d.locate cwd p false = .error e) ∧ (d.removeTree cwd p).2 = d ∨
      ∃ place n, d.resolveSteps cwd p p.steps false = .ok (.present place n) ∧ place ≠ [] ∧
        (d.removeTree cwd p).2 = (d.erase place).tick := by
  rcases (removeTree_spec d cwd p).1 h with hmissing | ⟨place, n, hl, hne, herased⟩
  · exact .inl hmissing
  refine .inr ⟨place, n, ?_, hne, herased⟩
  obtain ⟨hfol, hgoal, hget, hmet⟩ := locate_eq_ok_iff.mp hl
  have hf : followLinks d.root false maxLinks (origin cwd p) (stepsOf p) =
      .ok (.present place n) := followLinks_eq_present_iff.mpr ⟨hgoal, hget, hmet⟩
  refine resolveSteps_eq_ok_iff.mpr ⟨hfol, ?_⟩
  rw [stepsOf] at hf
  split at hf
  · -- with a separator at its end, the path leads through a link, but then it is not removed
    obtain ⟨g, m, k, hpart, hdir, hstay⟩ :=
      exists_dir_of_followLinks_append (List.cons_ne_nil _ []) hfol.start hf
    obtain ⟨hgoal', hget', hmet'⟩ := followLinks_eq_present_iff.mp hpart
    obtain ⟨rfl, rfl⟩ : g = place ∧ m = n := by
      have hget'' : d.get? g = some m := hget'
      rw [followLinks_stay, followLinks_nil, hget''] at hstay
      exact Place.present.inj (Except.ok.inj hstay)
    rcases route_true_or_stopped d maxLinks (origin cwd p) p.steps with
      hsame | ⟨stop, target, hstop, hlink, hsub⟩
    · exact followLinks_eq_present_iff.mpr ⟨hsame ▸ hgoal', hget', hsame ▸ hmet'⟩
    · have hnames : d.namesLink cwd p = true := by
        rw [namesLink, resolveSteps_eq_ok_iff.mpr ⟨hfol, followLinks_eq_present_iff.mpr
          ⟨hstop, get?_of_kindAt_link hlink, fun q hq => hmet' q (hsub q hq)⟩⟩]
        rfl
      have hobstacle := ne_none_of_namesLink hlast hnames
      exact absurd h (removeTree_ne_ok_of_obstacle hl hdir hobstacle)
  · rwa [List.append_nil] at hf

namespace Seated

/-- The place is free after the removal, and all else stays. -/
theorem removeTree (h : d.Seated cwd p above x) (hok : (d.removeTree cwd p).1 = .ok ()) :
    (d.removeTree cwd p).2 = d ∧ d.kindAt (above ++ [x]) = none ∨
      (d.removeTree cwd p).2 = (d.erase (above ++ [x])).tick := by
  rcases removeTree_eq_ok h.last hok with ⟨⟨e, he⟩, hsame⟩ | ⟨place, n, hr, -, herased⟩
  · refine .inl ⟨hsame, ?_⟩
    by_contra hne
    simpa [he, Except.isOk, Except.toBool] using h.found hne
  · obtain ⟨-, hf⟩ := resolveSteps_eq_ok_iff.mp hr
    obtain ⟨hgoal, -⟩ := followLinks_eq_present_iff.mp hf
    rw [h.place_eq hgoal] at herased
    exact .inr herased

theorem kindAt_removeTree (h : d.Seated cwd p above x) (hok : (d.removeTree cwd p).1 = .ok ())
    (q : List Name) :
    (d.removeTree cwd p).2.kindAt q = if above ++ [x] <+: q then none else d.kindAt q := by
  rcases h.removeTree hok with ⟨hsame, hfree⟩ | herased
  · rw [hsame]
    split
    · next hin => exact kindAt_eq_none_below hfree hin
    · rfl
  · rw [herased, kindAt_tick, kindAt_erase (by simp)]

theorem get?_removeTree (h : d.Seated cwd p above x) (hok : (d.removeTree cwd p).1 = .ok ())
    {q : List Name} (hq : Apart (above ++ [x]) q) :
    (d.removeTree cwd p).2.get? q = d.get? q := by
  rcases h.removeTree hok with ⟨hsame, -⟩ | herased
  · rw [hsame]
  · rw [herased, get?_tick, get?_erase_of_apart hq]

end Seated

/-! ### Making it anew -/

/-- From a base, directories were made at the end of a path and on the way to its last name, where
nothing stood, and nothing else changed. -/
structure Founded (base : Disk) (cwd : List Name) (p : Path) (above : List Name) (x : Name)
    (d : Disk) : Prop where
  kinds : ∀ q, d.kindAt q = base.kindAt q ∨ q ∈ (above ++ [x]) :: (base.approach cwd p).met ∧
    base.kindAt q = none ∧ d.kindAt q = some (.dir .full)
  kept : ∀ q, base.kindAt q ≠ none →
    (∀ m ∈ (above ++ [x]) :: (base.approach cwd p).met, ¬ q <+: m) → d.get? q = base.get? q
  writable : base.kindAt (above ++ [x]) = none → d.kindAt (above ++ [x]) ≠ none →
    d.isWritable above = true

section

variable {base : Disk}

theorem Founded.grows (h : base.Founded cwd p above x d) : base.Grows d := fun q =>
  (h.kinds q).imp_right fun ⟨_, hnone, hmade⟩ => ⟨hnone, hmade⟩

/-- Under the name nothing is made but the directory itself. -/
theorem Founded.kindAt_below (h : base.Founded cwd p above x d)
    (ha : base.Approaches cwd p above x) (hfree : base.kindAt (above ++ [x]) = none)
    {q : List Name} (hin : above ++ [x] <+: q) (hne : above ++ [x] ≠ q) : d.kindAt q = none := by
  rcases h.kinds q with hsame | ⟨hmem, -⟩
  · rw [hsame, kindAt_eq_none_below hfree hin]
  · rcases List.mem_cons.mp hmem with rfl | hmet
    · exact absurd rfl hne
    · exact absurd hin (ha.apart q (List.mem_cons_of_mem _ hmet))

/-- A free place that a first part of the path leads to is its end, or on the way to its last
name. -/
theorem Approaches.mem_of_absent (h : d.Approaches cwd p above x) {steps rest : List Path.Step}
    (hsteps : p.steps = steps ++ rest) {dir : List Name} {y : Name}
    (hfree : d.kindAt (dir ++ [y]) = none)
    (hgoal : (d.route false maxLinks (origin cwd p) steps).goal = some (dir ++ [y]))
    (hf : followLinks d.root false maxLinks (origin cwd p) steps = .ok (.absent dir y)) :
    dir ++ [y] ∈ (above ++ [x]) :: (d.approach cwd p).met := by
  rcases List.eq_nil_or_concat rest with rfl | ⟨rest, last, rfl⟩
  · rw [List.append_nil] at hsteps
    exact List.mem_cons.mpr (.inl (h.place_eq (hsteps ▸ hgoal)))
  refine List.mem_cons_of_mem _ ?_
  have happroach : d.approach cwd p = d.route true maxLinks (origin cwd p) (steps ++ rest) := by
    rw [approach, hsteps, List.concat_eq_append, ← List.append_assoc, List.dropLast_concat]
  -- as nothing stands there, it does not matter whether a link at the end is followed
  have hmet : dir ++ [y] ∈ (d.route true maxLinks (origin cwd p) steps).met := by
    rcases route_true_or_stopped d maxLinks (origin cwd p) steps with
      hsame | ⟨stop, target, hstop, hlink, -⟩
    · exact hsame ▸ mem_met_of_absent hf
    · obtain rfl : stop = dir ++ [y] := Option.some.inj (hstop.symm.trans hgoal)
      cases hfree.symm.trans hlink
  have hend := h.goal
  rw [happroach] at hend ⊢
  by_cases hrest : rest = []
  · rwa [hrest, List.append_nil]
  · rcases route_append d true maxLinks (origin cwd p) steps hrest with
      ⟨hnone, -⟩ | ⟨g, k, -, heq⟩
    · cases hnone.symm.trans hend
    · rw [heq]
      exact List.mem_append_left _ hmet

/-- **One more directory** at the end of the path, or on the way to its last name. -/
theorem Founded.makeDir (h : base.Founded cwd p above x d) (ha : base.Approaches cwd p above x)
    {a : Path} (horigin : origin cwd a = origin cwd p) {rest : List Path.Step}
    (hrest : p.steps = a.steps ++ rest) (hmade : d.makeDir cwd a = .ok d') :
    base.Founded cwd p above x d' := by
  obtain ⟨hway, ha'⟩ := ha.of_alike fun q _ => h.grows.alike q
  have hgrows := grows_of_makeDir hmade
  obtain ⟨dir, y, hr, hw, rfl⟩ := exists_absent_of_makeDir hmade
  obtain ⟨hfol, hf⟩ := resolveSteps_eq_ok_iff.mp hr
  obtain ⟨hgoal, hdir, hfree, -⟩ := route_of_absent hfol.start hf
  rw [horigin] at hf hgoal
  have hplace := ha'.mem_of_absent hrest hfree hgoal hf
  rw [hway] at hplace
  have hbase : base.kindAt (dir ++ [y]) = none := by
    rcases h.kinds (dir ++ [y]) with hsame | ⟨-, hnone, -⟩
    · exact hsame.symm.trans hfree
    · exact hnone
  refine ⟨fun q => ?_, fun q hq hout => ?_, fun hnone hsome => hgrows.isWritable (.inl ?_)⟩
  · rw [kindAt_tick, kindAt_of_makeDir hdir hfree]
    split
    · next heq => exact .inr ⟨heq ▸ hplace, heq ▸ hbase, rfl⟩
    · exact h.kinds q
  · -- below the new directory there was nothing, and above it nothing is kept
    have happart : Apart (dir ++ [y]) q :=
      ⟨fun hin => hq (kindAt_eq_none_below hbase hin), hout _ hplace⟩
    rw [get?_tick, get?_put_of_apart happart, h.kept q hq hout]
  · -- the name was taken before, or it is the new one
    rw [kindAt_tick, kindAt_of_makeDir hdir hfree] at hsome
    split at hsome
    · next heq => exact (List.append_inj' heq rfl).1 ▸ hw
    · exact h.writable hnone hsome

/-- **Making the directory and those above it** makes nothing else. -/
theorem Approaches.founded (h : base.Approaches cwd p above x) :
    base.Founded cwd p above x (base.makeDirAll cwd p).2 := by
  -- only first parts of the path are made, and each of them is a place on the way or the end
  refine makeDirAllFrom_keeps (P := fun a => origin cwd a = origin cwd p ∧
    ∃ rest, p.steps = a.steps ++ rest) ?_ ?_ _ ⟨rfl, [], (List.append_nil _).symm⟩
    ⟨fun _ => .inl rfl, fun _ _ _ => rfl, fun hnone hsome => absurd hnone hsome⟩
  · rintro a b ⟨horigin, rest, hrest⟩ hparent
    obtain ⟨more, hmore, -⟩ := Path.steps_parent? hparent
    refine ⟨?_, more ++ rest, by rw [hrest, hmore, List.append_assoc]⟩
    rw [← horigin, origin, origin, Path.isAbsolute_parent? hparent]
  · rintro d d' a ⟨horigin, rest, hrest⟩ hd hmade
    exact hd.makeDir h horigin hrest hmade

/-- A path that leads to a directory leads to the one that was made. -/
theorem Founded.grounds (h : base.Founded cwd p above x d) (ha : base.Approaches cwd p above x)
    (hfree : base.kindAt (above ++ [x]) = none) (hdir : d.isDir cwd p = true) :
    d.Grounds cwd p (above ++ [x]) := by
  obtain ⟨-, ha'⟩ := ha.of_alike fun q _ => h.grows.alike q
  obtain ⟨n, hn, hndir⟩ := isDir_iff.mp hdir
  obtain ⟨place, hl⟩ := stat_eq_ok_iff.mp hn
  obtain ⟨-, hgoal, hget, -⟩ := locate_eq_ok_iff.mp hl
  -- no link stands under the name, so the path does not lead on from there
  have hpass : d.Passable (above ++ [x]) := by
    rcases h.kinds (above ++ [x]) with hsame | ⟨-, -, hmade⟩
    · exact .inl (hsame.trans hfree)
    · exact .inr ⟨_, hmade⟩
  obtain rfl : place = above ++ [x] := by
    rw [← route_steps_of_wayTo hgoal] at hgoal
    obtain ⟨k, hk⟩ := ha'.exists_goal_last hgoal
    rw [route_down hpass, route_nil] at hk
    exact (Option.some.inj hk).symm
  refine ⟨⟨n, hl, hndir⟩, fun q target hin hlink => ?_⟩
  by_cases hq : above ++ [x] = q
  · obtain ⟨l, hl⟩ := dirAt_iff.mpr ⟨n, hget, hndir⟩
    rw [hq, hlink] at hl
    cases hl
  · cases (h.kindAt_below ha hfree hin hq).symm.trans hlink

end

end

end SuiteGate.Disk
