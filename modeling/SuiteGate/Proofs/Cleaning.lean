import Mathlib.Data.List.Infix
import Mathlib.Tactic.Common
import SuiteGate.Proofs.Native.Rebuild
import SuiteGate.Proofs.Staleness
/-!
# What cleaning removes

Cleaning removes what a list of paths leads to (`Staleness.clean`).  A path that goes straight down
(`Disk.Straight`) leads nowhere but to the place that its names say (`Disk.Straight.eq_placeOf`), a
symbolic link there included, so cleaning removes what is listed and nothing else (`clean_spec`).

A path can ask for a directory by a separator or a dot at its end.  Behind the name of a link it
leads to the directory that the link leads to, which is emptied, though it is not listed, and the
link stays (`clean_through_link`).
-/

namespace SuiteGate

/-- A path asks for a directory: it ends in a separator, or in a dot. -/
def Path.AsksForDir (p : Path) : Prop :=
  p.hasTrailingSlash = true ∨ p.steps.getLast? = some .stay

instance : DecidablePred Path.AsksForDir := fun _ => inferInstanceAs (Decidable (_ ∨ _))

namespace Disk

/-! ### Straight down -/

/-- There is no link above a place. -/
def LinkFreeAbove (d : Disk) (place : List Name) : Prop :=
  ∀ q, q <+: place → q ≠ place → ¬ d.LinkAt q

instance (d : Disk) : DecidablePred d.LinkFreeAbove := fun place =>
  decidable_of_iff (∀ q ∈ place.inits, q ≠ place → ¬ d.LinkAt q) (by
    simp only [List.mem_inits, LinkFreeAbove])

/-- The place that the names along a path say. -/
def placeOf (cwd : List Name) (p : Path) : List Name :=
  origin cwd p ++ p.names

/-- **A path goes straight down:** it never leads up, there is no link among the directories on its
way, and it does not ask for the directory behind a link at its end. -/
structure Straight (d : Disk) (cwd : List Name) (p : Path) : Prop where
  noUp : .up ∉ p.steps
  parents : d.LinkFreeAbove (placeOf cwd p)
  named : d.LinkAt (placeOf cwd p) → d.isDir cwd p = true → ¬ p.AsksForDir

instance (d : Disk) (cwd : List Name) : DecidablePred (d.Straight cwd) := fun p =>
  decidable_of_iff
    (.up ∉ p.steps ∧ d.LinkFreeAbove (placeOf cwd p) ∧
      (d.LinkAt (placeOf cwd p) → d.isDir cwd p = true → ¬ p.AsksForDir))
    ⟨fun h => ⟨h.1, h.2.1, h.2.2⟩, fun h => ⟨h.1, h.2, h.3⟩⟩

section

variable {d d' : Disk} {cwd : List Name} {p : Path}

theorem LinkAt.of_within {place : List Name} (h : d'.Within d) (hlink : d'.LinkAt place) :
    d.LinkAt place := by
  obtain ⟨target, htarget⟩ := hlink
  exact ⟨target, (h place (by simp [htarget])).symm.trans htarget⟩

/-- A path that goes straight down still does after things were removed. -/
theorem Straight.of_within (h : d'.Within d) (hp : d.Straight cwd p) : d'.Straight cwd p := by
  refine ⟨hp.noUp, fun q hq hne hlink => hp.parents q hq hne (hlink.of_within h), ?_⟩
  intro hlink hdir
  obtain ⟨n, hn, hndir⟩ := isDir_iff.mp hdir
  obtain ⟨m, hm, hk⟩ := stat_of_within h hn
  refine hp.named (hlink.of_within h) (isDir_iff.mpr ⟨m, hm, ?_⟩)
  rw [Node.isDir_eq_of_kind_eq hk, hndir]

/-- The names along steps go on from the first. -/
theorem append_filterMap_down (here : List Name) (x : Name) (rest : List Path.Step) :
    here ++ (Path.Step.down x :: rest).filterMap Path.Step.name? =
      here ++ [x] ++ rest.filterMap Path.Step.name? :=
  (List.append_assoc here [x] _).symm

/-- **Steps that lead neither up nor on through a link** lead to where their names say, unless the
way is blocked. -/
theorem route_straight {k : ℕ} {here : List Name} {steps : List Path.Step} (hup : .up ∉ steps)
    (hparents : ∀ q, here <+: q → q ≠ here → q <+: here ++ steps.filterMap Path.Step.name? →
      q ≠ here ++ steps.filterMap Path.Step.name? → ¬ d.LinkAt q)
    (hend : d.LinkAt (here ++ steps.filterMap Path.Step.name?) → steps.getLast? ≠ some .stay) :
    (d.route false k here steps).goal = none ∨
      (d.route false k here steps).goal = some (here ++ steps.filterMap Path.Step.name?) := by
  induction here, steps using steps_induction d with
  | nil here => exact .inr (by rw [route_nil, List.filterMap_nil, List.append_nil])
  | stay here rest ih =>
    rw [List.filterMap_cons_none rfl] at hparents hend ⊢
    rw [route_stay]
    refine ih (fun hmem => hup (List.mem_cons_of_mem _ hmem)) hparents fun hlink hlast => ?_
    exact hend hlink (by rw [List.getLast?_cons, hlast]; rfl)
  | up here rest ih => exact absurd (List.mem_cons_self ..) hup
  | down here x rest hp ih =>
    rw [append_filterMap_down] at hparents hend ⊢
    rw [route_down hp]
    refine ih (fun hmem => hup (List.mem_cons_of_mem _ hmem)) (fun q hq _ => ?_)
      fun hlink hlast => ?_
    · refine hparents q ((List.prefix_append _ _).trans hq) ?_
      rintro rfl
      exact absurd hq.length_le (by simp)
    · exact hend hlink (by rw [List.getLast?_cons, hlast]; rfl)
  | file here x rest data hk =>
    rw [route_file hk]
    cases rest with
    | nil => exact .inr rfl
    | cons s rest => exact .inl rfl
  | link here x rest target hk =>
    rw [append_filterMap_down] at hparents hend ⊢
    -- the link is the last name, and nothing stands behind it
    have hnames : rest.filterMap Path.Step.name? = [] := by
      by_contra hne
      exact hparents (here ++ [x]) (List.prefix_append _ _) (by simp) (List.prefix_append _ _)
        (by simpa using hne) ⟨target, hk⟩
    rw [hnames, List.append_nil] at hend ⊢
    have hrest : rest = [] := by
      by_contra hne
      obtain ⟨init, s, rfl⟩ := List.eq_nil_or_concat' rest |>.resolve_left hne
      have hlast := hend ⟨target, hk⟩
      cases s with
      | stay => simp [List.getLast?_cons] at hlast
      | up => simp at hup
      | down y => simp [Path.Step.name?] at hnames
    rw [hrest, route_stop hk]
    exact .inr rfl

theorem getLast?_stepsOf : (stepsOf p).getLast? = some .stay ↔ p.AsksForDir := by
  rw [stepsOf, Path.AsksForDir]
  cases p.hasTrailingSlash <;> simp

/-- **A path that asks for a directory** leads to none or to a directory. -/
theorem isDir_of_asksForDir {final : Bool} {place : List Name} {n : Node}
    (hl : d.locate cwd p final = .ok (place, n)) (h : p.AsksForDir) : n.isDir = true := by
  obtain ⟨init, hinit⟩ := List.getLast?_eq_some_iff.mp (getLast?_stepsOf.mpr h)
  obtain ⟨hfol, hfound⟩ := locate_eq_ok_iff.mp hl
  rw [wayTo, ← followLinks_eq_present_iff, hinit] at hfound
  obtain ⟨g, m, k, hg, hdir, hstay⟩ :=
    exists_dir_of_followLinks_append (List.cons_ne_nil _ []) hfol.start hfound
  obtain ⟨-, hget, -⟩ := followLinks_eq_present_iff.mp hg
  rw [followLinks_stay, followLinks_nil, hget, Except.ok.injEq, Place.present.injEq] at hstay
  exact hstay.2 ▸ hdir

/-- **A path that goes straight down** leads to the place that its names say. -/
theorem Straight.eq_placeOf (h : d.Straight cwd p) {place : List Name} {n : Node}
    (hl : d.locate cwd p false = .ok (place, n)) : place = placeOf cwd p := by
  have hnames : (stepsOf p).filterMap Path.Step.name? = p.names := by
    rw [stepsOf, List.filterMap_append, Path.names]
    cases p.hasTrailingSlash <;> simp [Path.Step.name?]
  obtain ⟨-, hgoal, -, -⟩ := locate_eq_ok_iff.mp hl
  have hup : .up ∉ stepsOf p := by
    have hno := h.noUp
    rw [stepsOf]
    cases p.hasTrailingSlash <;> simpa using hno
  have hroute := route_straight (d := d) (k := maxLinks) hup
    (fun q _ _ hq hne => h.parents q (by rwa [hnames] at hq) (by rwa [hnames] at hne))
    fun hlink hlast => ?_
  · rw [← wayTo, hgoal, hnames] at hroute
    simpa [placeOf] using hroute
  · -- what stands behind the link is a directory
    rw [hnames] at hlink
    have hasks := getLast?_stepsOf.mp hlast
    have hdir := isDir_of_asksForDir hl hasks
    have hnotLink : n.isLink = false := by
      obtain ⟨l, es, rfl⟩ := Node.exists_eq_dir hdir
      rfl
    refine h.named hlink (isDir_iff.mpr ⟨n, stat_eq_ok_iff.mpr ⟨place, ?_⟩, hdir⟩) hasks
    exact locate_true_of_not_isLink hl hnotLink

/-! ### Removing from one place -/

/-- What is removed where a path leads is removed from the place that its names say. -/
theorem Straight.kindAt_of_pruned (h : d.Straight cwd p) (hpruned : d.Pruned cwd p d')
    {place : List Name} {n : Node} (hl : d.locate cwd p false = .ok (place, n)) {q : List Name}
    (hq : ¬ placeOf cwd p <+: q) : d'.kindAt q = d.kindAt q := by
  obtain ⟨-, hgoal, -, -⟩ := locate_eq_ok_iff.mp hl
  refine hpruned.outside q fun tree htree => ?_
  obtain rfl : place = tree := Option.some.inj (hgoal.symm.trans htree)
  rwa [h.eq_placeOf hl]

theorem Straight.kindAt_of_freed (h : d.Straight cwd p) (hfreed : d.Freed cwd p d')
    {q : List Name} (hq : ¬ placeOf cwd p <+: q) : d'.kindAt q = d.kindAt q := by
  have hpruned := hfreed.pruned
  rcases hfreed with ⟨rfl, -⟩ | ⟨place, n, hl, -⟩
  · rfl
  · exact h.kindAt_of_pruned hpruned hl hq

theorem Straight.kindAt_of_emptied (h : d.Straight cwd p) (hemptied : d.Emptied cwd p d')
    {q : List Name} (hq : ¬ placeOf cwd p <+: q) : d'.kindAt q = d.kindAt q := by
  have hpruned := hemptied.pruned
  obtain ⟨place, n, hl, -⟩ := hemptied
  exact h.kindAt_of_pruned hpruned hl hq

/-- **A path whose tree was removed** leads nowhere. -/
theorem Freed.pathExists_eq_false (h : d.Freed cwd p d') : d'.pathExists cwd p = false := by
  have hwithin := h.pruned.within
  rcases h with ⟨rfl, hmissing⟩ | herased
  · exact hmissing
  · rw [Bool.eq_false_iff]
    intro hexists
    -- what the path leads to now, or the first link there, it led to before, and that is gone
    obtain ⟨n, hn⟩ := pathExists_iff.mp hexists
    obtain ⟨m, hm, -⟩ := exists_lstat_of_stat hn
    obtain ⟨place, hl⟩ := lstat_eq_ok_iff.mp hm
    obtain ⟨-, -, hget, -⟩ := locate_eq_ok_iff.mp hl
    obtain ⟨m', hl', -⟩ := locate_of_within hwithin hl
    obtain ⟨-, hgoal, -, -⟩ := locate_eq_ok_iff.mp hl'
    obtain ⟨tree, htree, hgone⟩ := herased.exists_goal
    obtain rfl : place = tree := Option.some.inj (hgoal.symm.trans htree)
    have hkind := kindAt_of_get? hget
    rw [hgone, if_pos (List.prefix_refl _)] at hkind
    cases hkind

end

end Disk

namespace Staleness

open Disk

variable {d d' : Disk} {cwd : List Name} {ps : List Path} {r : Except IoError Unit}

/-- **Cleaning that succeeds** leaves no listed path that leads anywhere. -/
theorem pathExists_of_clean (h : clean d cwd ps = (.ok (), d')) :
    d'.Within d ∧ ∀ p ∈ ps, d'.pathExists cwd p = false := by
  induction ps generalizing d with
  | nil =>
    obtain ⟨-, rfl⟩ := Prod.mk.inj h
    exact ⟨.refl d, by simp⟩
  | cons p ps ih =>
    rcases Capi.clean_cons d cwd p ps with ⟨e, d₁, he, -⟩ | ⟨d₁, hfreed, hrest⟩
    · cases he.symm.trans h
    · obtain ⟨hwithin, hgone⟩ := ih (hrest.symm.trans h)
      refine ⟨hwithin.trans hfreed.pruned.within, List.forall_mem_cons.mpr ⟨?_, hgone⟩⟩
      exact pathExists_eq_false_of_within hwithin hfreed.pathExists_eq_false

/-- **Cleaning changes nothing else,** whether it succeeds or not. -/
theorem kindAt_of_clean (hps : ∀ p ∈ ps, d.Straight cwd p) (h : clean d cwd ps = (r, d'))
    {q : List Name} (hq : ∀ p ∈ ps, ¬ placeOf cwd p <+: q) : d'.kindAt q = d.kindAt q := by
  induction ps generalizing d with
  | nil =>
    obtain ⟨-, rfl⟩ := Prod.mk.inj h
    rfl
  | cons p ps ih =>
    obtain ⟨hp, hps⟩ := List.forall_mem_cons.mp hps
    obtain ⟨hqp, hq⟩ := List.forall_mem_cons.mp hq
    rcases Capi.clean_cons d cwd p ps with ⟨e, d₁, he, hstate⟩ | ⟨d₁, hfreed, hrest⟩
    · obtain ⟨-, rfl⟩ := Prod.mk.inj (he.symm.trans h)
      rcases hstate with rfl | hfails
      · rfl
      · rcases removeDirAll_eq_error hfails with rfl | ⟨place, n, hl, hdir, hd', -⟩
        · rfl
        · exact hp.kindAt_of_emptied ⟨place, n, hl, hdir, hd'⟩ hqp
    · -- the other paths still go straight down
      have hps' : ∀ p ∈ ps, d₁.Straight cwd p :=
        fun p hp => (hps p hp).of_within hfreed.pruned.within
      exact (ih hps' (hrest.symm.trans h) hq).trans (hp.kindAt_of_freed hfreed hqp)

/-- **Cleaning removes what is listed and nothing else,** if the listed paths go straight down.
When it succeeds, no listed path leads anywhere, so that a check of sources that can be read against
a listed path finds no output.  Whether it succeeds or not, what is not at or below a listed place
is as before. -/
theorem clean_spec (hps : ∀ p ∈ ps, d.Straight cwd p) (h : clean d cwd ps = (r, d')) :
    (r = .ok () → ∀ p ∈ ps, d'.pathExists cwd p = false ∧
      ∀ source, ¬ Unreadable d' cwd source p →
        check d' cwd source p = .ok (.noOutput p)) ∧
    ∀ q, (∀ p ∈ ps, ¬ placeOf cwd p <+: q) → d'.kindAt q = d.kindAt q := by
  refine ⟨?_, fun q => kindAt_of_clean hps h⟩
  rintro rfl p hp
  have hgone := (pathExists_of_clean h).2 p hp
  exact ⟨hgone, fun source hread =>
    check_eq_noOutput_iff.mpr ⟨rfl, hread, not_hasStamp_of_missing hgone⟩⟩

/-- A tree, and a link to another. -/
def linkedDisk : Disk :=
  (Disk.empty ⟨10⟩).plant []
    [⟨⟨"keep/a"⟩, .file ByteArray.empty false (some ⟨1⟩)⟩, ⟨⟨"l"⟩, .link ⟨"keep"⟩⟩,
      ⟨⟨"t/u/b"⟩, .file ByteArray.empty false (some ⟨2⟩)⟩]

/-- The place of the file that is to be kept. -/
def keptPlace : List Name := [⟨"keep", by decide⟩, ⟨"a", by decide⟩]

/-- Cleaning a tree, a part of it, the tree again, something missing and a link. -/
theorem clean_spec_small :
    let ps : List Path := [⟨"/t/u"⟩, ⟨"/t"⟩, ⟨"/t"⟩, ⟨"/gone"⟩, ⟨"/l"⟩]
    (∀ p ∈ ps, linkedDisk.Straight [] p) ∧ ∃ d', clean linkedDisk [] ps = (.ok (), d') ∧
      (∀ p ∈ ps, d'.pathExists [] p = false) ∧
      check d' [] ⟨"/keep"⟩ ⟨"/t"⟩ = .ok (.noOutput ⟨"/t"⟩) ∧
      d'.kindAt keptPlace = linkedDisk.kindAt keptPlace := by
  intro ps
  have hps : ∀ p ∈ ps, linkedDisk.Straight [] p := by decide +kernel
  have hok : (clean linkedDisk [] ps).1.isOk = true ∧
      (check (clean linkedDisk [] ps).2 [] ⟨"/keep"⟩ ⟨"/t"⟩).isOk = true := by
    decide +kernel
  rcases hclean : clean linkedDisk [] ps with ⟨e | u, d'⟩
  · rw [hclean] at hok
    cases hok.1
  · rw [hclean] at hok
    obtain ⟨hgone, hkept⟩ := clean_spec hps hclean
    refine ⟨hps, d', rfl, fun p hp => (hgone rfl p hp).1, ?_, hkept keptPlace (by decide +kernel)⟩
    refine (hgone rfl ⟨"/t"⟩ (by decide)).2 ⟨"/keep"⟩ fun hread => ?_
    obtain ⟨e, he⟩ := exists_check_eq_error_iff.mpr hread
    rw [he] at hok
    cases hok.2

/-- **Behind the name of a link,** a separator leads to what the link leads to: its entries are
removed, though they are not listed, and the link stays. -/
theorem clean_through_link :
    let p : Path := ⟨"/l/"⟩
    .up ∉ p.steps ∧ linkedDisk.LinkFreeAbove (placeOf [] p) ∧ ¬ placeOf [] p <+: keptPlace ∧
      linkedDisk.kindAt keptPlace ≠ none ∧
      (clean linkedDisk [] [p]).1 = .error (.os .notDirectory) ∧
      (clean linkedDisk [] [p]).2.kindAt keptPlace = none ∧
      (clean linkedDisk [] [p]).2.LinkAt (placeOf [] p) := by
  decide +kernel

end Staleness

end SuiteGate
