import SuiteGate.Proofs.Disk.Places
import SuiteGate.Proofs.Paths
/-!
# The ways of paths

Steps that are followed from a place take a way through the tree (`Disk.route`): they come by some
places, turn at some links, and end somewhere or are blocked, by a file that is not at the end or
by too many links.  Missing directories are taken for granted, so a way is known before the
directories on it are made.  `route_induction` is the induction along a way.

The headlines say how ways and look-ups belong together (`followLinks_eq_present_iff`,
`route_of_absent`), that a way only depends on the kinds of the places it comes by
(`route_eq_of_alike`, `route_of_erased`), and how the ways of longer paths are composed
(`route_append`, `route_names`).
-/

namespace SuiteGate

/-- A way through a tree: the places it comes by, those of them at which it follows a link, and
where it ends, if it is not blocked. -/
structure Route where
  met : List (List Name)
  turns : List (List Name)
  goal : Option (List Name)
deriving DecidableEq

namespace Route

/-- The way by a place and on. -/
def past (place : List Name) (r : Route) : Route :=
  { r with met := place :: r.met }

/-- The way that follows a link at a place. -/
def turning (place : List Name) (r : Route) : Route :=
  ⟨place :: r.met, place :: r.turns, r.goal⟩

/-- One way after another. -/
def andThen (r s : Route) : Route :=
  ⟨r.met ++ s.met, r.turns ++ s.turns, s.goal⟩

end Route

namespace Disk

/-- A way can go on at a place: there is a directory, or nothing yet. -/
def Passable (d : Disk) (place : List Name) : Prop :=
  d.kindAt place = none ∨ d.DirAt place

/-- The way of steps from a place; links are left to `jump`. -/
def routeFrom (d : Disk) (final : Bool) (jump : List Name → List Path.Step → Route) :
    List Name → List Path.Step → Route
  | here, [] => ⟨[], [], some here⟩
  | here, .stay :: rest => routeFrom d final jump here rest
  | here, .up :: rest => routeFrom d final jump here.dropLast rest
  | here, .down x :: rest =>
    match d.kindAt (here ++ [x]) with
    | none | some (.dir _) => (routeFrom d final jump (here ++ [x]) rest).past (here ++ [x])
    | some (.link target) =>
      if rest.isEmpty && !final then ⟨[here ++ [x]], [], some (here ++ [x])⟩
      else (jump (origin here target) (stepsOf target ++ rest)).turning (here ++ [x])
    | some (.file _) => ⟨[here ++ [x]], [], if rest.isEmpty then some (here ++ [x]) else none⟩

/-- **The way of steps from a place,** which turns at so many links at most.  A link at the end is
followed if `final` is set. -/
def route (d : Disk) (final : Bool) : ℕ → List Name → List Path.Step → Route
  | 0, here, steps => d.routeFrom final (fun _ _ => ⟨[], [], none⟩) here steps
  | n + 1, here, steps => d.routeFrom final (d.route final n) here steps

/-! ### One step of a way -/

section

variable {d : Disk} {final : Bool} {k : ℕ} {here : List Name} {x : Name} {rest : List Path.Step}
  {target : Path}

theorem route_nil : d.route final k here [] = ⟨[], [], some here⟩ := by
  cases k <;> rfl

theorem route_stay : d.route final k here (.stay :: rest) = d.route final k here rest := by
  cases k <;> rfl

theorem route_up : d.route final k here (.up :: rest) = d.route final k here.dropLast rest := by
  cases k <;> rfl

theorem route_down (h : d.Passable (here ++ [x])) :
    d.route final k here (.down x :: rest) =
      (d.route final k (here ++ [x]) rest).past (here ++ [x]) := by
  rcases h with h | ⟨l, h⟩ <;> cases k <;> simp only [route, routeFrom, h]

theorem route_file {data : FileData} (h : d.kindAt (here ++ [x]) = some (.file data)) :
    d.route final k here (.down x :: rest) =
      ⟨[here ++ [x]], [], if rest.isEmpty then some (here ++ [x]) else none⟩ := by
  cases k <;> simp only [route, routeFrom, h]

theorem route_stop (h : d.kindAt (here ++ [x]) = some (.link target)) :
    d.route false k here [.down x] = ⟨[here ++ [x]], [], some (here ++ [x])⟩ := by
  cases k <;> simp [route, routeFrom, h]

theorem route_turn (h : d.kindAt (here ++ [x]) = some (.link target))
    (hgo : rest ≠ [] ∨ final = true) :
    d.route final (k + 1) here (.down x :: rest) =
      (d.route final k (origin here target) (stepsOf target ++ rest)).turning (here ++ [x]) := by
  have hb : (rest.isEmpty && !final) = false := by
    rcases hgo with h | h <;> simp [h]
  rw [route, routeFrom]
  simp only [h, hb, Bool.false_eq_true, if_false]

theorem route_lost (h : d.kindAt (here ++ [x]) = some (.link target))
    (hgo : rest ≠ [] ∨ final = true) :
    d.route final 0 here (.down x :: rest) = ⟨[here ++ [x]], [here ++ [x]], none⟩ := by
  have hb : (rest.isEmpty && !final) = false := by
    rcases hgo with h | h <;> simp [h]
  rw [route, routeFrom]
  simp only [h, hb, Bool.false_eq_true, if_false]
  rfl

end

/-- Induction along the steps of a way, up to its first link. -/
theorem steps_induction (d : Disk) {motive : List Name → List Path.Step → Prop}
    (nil : ∀ here, motive here [])
    (stay : ∀ here rest, motive here rest → motive here (.stay :: rest))
    (up : ∀ here rest, motive here.dropLast rest → motive here (.up :: rest))
    (down : ∀ here x rest, d.Passable (here ++ [x]) → motive (here ++ [x]) rest →
      motive here (.down x :: rest))
    (file : ∀ here x rest data, d.kindAt (here ++ [x]) = some (.file data) →
      motive here (.down x :: rest))
    (link : ∀ here x rest target, d.kindAt (here ++ [x]) = some (.link target) →
      motive here (.down x :: rest))
    (here : List Name) (steps : List Path.Step) : motive here steps := by
  induction steps generalizing here with
  | nil => exact nil here
  | cons s rest ih =>
    cases s with
    | stay => exact stay here rest (ih here)
    | up => exact up here rest (ih _)
    | down x =>
      rcases hk : d.kindAt (here ++ [x]) with - | data | target | l
      · exact down here x rest (.inl hk) (ih _)
      · exact file here x rest data hk
      · exact link here x rest target hk
      · exact down here x rest (.inr ⟨l, hk⟩) (ih _)

/-- **Induction along a way.**  At a name there can be a passable place, a file, or a link; a link
is where the way stops, or turns, or is lost because it turned too often. -/
@[elab_as_elim]
theorem route_induction (d : Disk) (final : Bool) {motive : ℕ → List Name → List Path.Step → Prop}
    (nil : ∀ k here, motive k here [])
    (stay : ∀ k here rest, motive k here rest → motive k here (.stay :: rest))
    (up : ∀ k here rest, motive k here.dropLast rest → motive k here (.up :: rest))
    (down : ∀ k here x rest, d.Passable (here ++ [x]) → motive k (here ++ [x]) rest →
      motive k here (.down x :: rest))
    (file : ∀ k here x rest data, d.kindAt (here ++ [x]) = some (.file data) →
      motive k here (.down x :: rest))
    (stop : ∀ k here x target, final = false → d.kindAt (here ++ [x]) = some (.link target) →
      motive k here [.down x])
    (turn : ∀ k here x rest target, d.kindAt (here ++ [x]) = some (.link target) →
      (rest ≠ [] ∨ final = true) → motive k (origin here target) (stepsOf target ++ rest) →
      motive (k + 1) here (.down x :: rest))
    (lost : ∀ here x rest target, d.kindAt (here ++ [x]) = some (.link target) →
      (rest ≠ [] ∨ final = true) → motive 0 here (.down x :: rest))
    (k : ℕ) (here : List Name) (steps : List Path.Step) : motive k here steps := by
  -- a link that is followed gives new steps, so the outer induction is on the links left
  induction k generalizing here steps with
  | zero =>
    refine steps_induction d (nil 0) (stay 0) (up 0) (down 0) (file 0) ?_ here steps
    intro here x rest target hk
    by_cases hgo : rest ≠ [] ∨ final = true
    · exact lost here x rest target hk hgo
    · obtain ⟨rfl, hf⟩ : rest = [] ∧ final = false := by simpa using hgo
      exact stop 0 here x target hf hk
  | succ k ih =>
    refine steps_induction d (nil _) (stay _) (up _) (down _) (file _) ?_ here steps
    intro here x rest target hk
    by_cases hgo : rest ≠ [] ∨ final = true
    · exact turn k here x rest target hk hgo (ih _ _)
    · obtain ⟨rfl, hf⟩ : rest = [] ∧ final = false := by simpa using hgo
      exact stop (k + 1) here x target hf hk

theorem dirAt_origin {d : Disk} {here : List Name} (h : d.DirAt here) (target : Path) :
    d.DirAt (origin here target) := by
  rw [origin]
  split
  · exact dirAt_nil d
  · exact h

/-! ### One step of a look-up -/

section

variable {d : Disk} {final : Bool} {k : ℕ} {here : List Name} {x : Name} {rest : List Path.Step}
  {target : Path}

theorem followLinks_nil :
    followLinks d.root final k here [] =
      match d.get? here with
      | some n => .ok (.present here n)
      | none => .error .notFound := by
  cases k <;> rfl

theorem followLinks_stay :
    followLinks d.root final k here (.stay :: rest) = followLinks d.root final k here rest := by
  cases k <;> rfl

theorem followLinks_up :
    followLinks d.root final k here (.up :: rest) =
      followLinks d.root final k here.dropLast rest := by
  cases k <;> rfl

theorem followLinks_missing (h : d.kindAt (here ++ [x]) = none) :
    followLinks d.root final k here (.down x :: rest) =
      if rest.isEmpty then .ok (.absent here x) else .error .notFound := by
  have h : d.root.get? (here ++ [x]) = none := kindAt_eq_none_iff.mp h
  cases k <;> simp only [followLinks, follow, h]

theorem followLinks_dir (h : d.DirAt (here ++ [x])) :
    followLinks d.root final k here (.down x :: rest) =
      followLinks d.root final k (here ++ [x]) rest := by
  obtain ⟨n, hn, hdir⟩ := dirAt_iff.mp h
  have hn : d.root.get? (here ++ [x]) = some n := hn
  obtain ⟨l, es, rfl⟩ := Node.exists_eq_dir hdir
  cases k <;> simp only [followLinks, follow, hn]

theorem followLinks_file {data : FileData} (h : d.kindAt (here ++ [x]) = some (.file data)) :
    followLinks d.root final k here (.down x :: rest) =
      if rest.isEmpty then .ok (.present (here ++ [x]) (.file data)) else .error .notDirectory := by
  obtain ⟨n, hn, hk⟩ := kindAt_eq_some_iff.mp h
  rw [Node.kind_eq_file_iff] at hk
  subst hk
  have hn : d.root.get? (here ++ [x]) = some (.file data) := hn
  cases k <;> simp only [followLinks, follow, hn]

theorem get?_of_kindAt_link {p : List Name} (h : d.kindAt p = some (.link target)) :
    d.root.get? p = some (.link target) := by
  obtain ⟨n, hn, hk⟩ := kindAt_eq_some_iff.mp h
  rw [Node.kind_eq_link_iff] at hk
  exact hk ▸ hn

theorem followLinks_stop (h : d.kindAt (here ++ [x]) = some (.link target)) :
    followLinks d.root false k here [.down x] =
      .ok (.present (here ++ [x]) (.link target)) := by
  have hn := get?_of_kindAt_link h
  cases k <;> simp [followLinks, follow, hn]

theorem followLinks_turn (h : d.kindAt (here ++ [x]) = some (.link target))
    (hgo : rest ≠ [] ∨ final = true) :
    followLinks d.root final (k + 1) here (.down x :: rest) =
      followLinks d.root final k (origin here target) (stepsOf target ++ rest) := by
  have hb : (rest.isEmpty && !final) = false := by
    rcases hgo with h | h <;> simp [h]
  have hn := get?_of_kindAt_link h
  rw [followLinks, follow]
  simp only [hn, hb, Bool.false_eq_true, if_false]

theorem followLinks_lost (h : d.kindAt (here ++ [x]) = some (.link target))
    (hgo : rest ≠ [] ∨ final = true) :
    followLinks d.root final 0 here (.down x :: rest) = .error .tooManyLinks := by
  have hb : (rest.isEmpty && !final) = false := by
    rcases hgo with h | h <;> simp [h]
  have hn := get?_of_kindAt_link h
  rw [followLinks, follow]
  simp only [hn, hb, Bool.false_eq_true, if_false]

end

/-! ### Ways and look-ups -/

section

variable {d : Disk} {final : Bool} {k : ℕ} {here : List Name} {steps : List Path.Step}

/-- A look-up that has found something found nothing else. -/
theorem present_eq_iff {place p : List Name} {m n : Node} (hm : d.get? place = some m) :
    (Except.ok (Place.present place m) : Except OsError Place) = .ok (.present p n) ↔
      place = p ∧ d.get? p = some n := by
  rw [Except.ok.injEq, Place.present.injEq]
  constructor
  · rintro ⟨rfl, rfl⟩
    exact ⟨rfl, hm⟩
  · rintro ⟨rfl, h⟩
    rw [hm, Option.some.injEq] at h
    exact ⟨rfl, h⟩

/-- **A look-up finds something** if nothing is missing on the way, and that is what stands where
the way ends. -/
theorem followLinks_eq_present_iff {p : List Name} {n : Node} :
    followLinks d.root final k here steps = .ok (.present p n) ↔
      (d.route final k here steps).goal = some p ∧ d.get? p = some n ∧
        ∀ q ∈ (d.route final k here steps).met, d.kindAt q ≠ none := by
  induction k, here, steps using route_induction d final with
  | nil k here =>
    rw [followLinks_nil, route_nil]
    cases hn : d.get? here with
    | none =>
      simp only [reduceCtorEq, Option.some.injEq, false_iff, not_and]
      rintro rfl h
      rw [hn] at h
      exact absurd h (by simp)
    | some m =>
      simp only [present_eq_iff hn, Option.some.injEq, List.not_mem_nil, false_implies,
        implies_true, and_true]
  | stay k here rest ih => rw [followLinks_stay, route_stay, ih]
  | up k here rest ih => rw [followLinks_up, route_up, ih]
  | down k here x rest hp ih =>
    rw [route_down hp]
    rcases hp with hp | hp
    · -- the way goes on past a free name, but the look-up does not
      rw [followLinks_missing hp]
      constructor
      · intro h
        split at h <;> simp at h
      · rintro ⟨-, -, h⟩
        exact absurd hp (h _ (List.mem_cons_self ..))
    · rw [followLinks_dir hp, ih]
      obtain ⟨l, hl⟩ := hp
      simp [Route.past, hl]
  | file k here x rest data hk =>
    rw [followLinks_file hk, route_file hk]
    cases hr : rest.isEmpty with
    | false => simp
    | true =>
      obtain ⟨m, hm, hmk⟩ := kindAt_eq_some_iff.mp hk
      rw [Node.kind_eq_file_iff] at hmk
      subst hmk
      simp only [if_true, present_eq_iff hm, Option.some.injEq, List.mem_singleton, forall_eq, hk,
        ne_eq, reduceCtorEq, not_false_eq_true, and_true]
  | stop k here x target hf hk =>
    subst hf
    rw [followLinks_stop hk, route_stop hk]
    have hm : d.get? (here ++ [x]) = some (.link target) := get?_of_kindAt_link hk
    simp only [present_eq_iff hm, Option.some.injEq, List.mem_singleton, forall_eq, hk, ne_eq,
      reduceCtorEq, not_false_eq_true, and_true]
  | turn k here x rest target hk hgo ih =>
    rw [followLinks_turn hk hgo, route_turn hk hgo, ih]
    simp [Route.turning, hk]
  | lost here x rest target hk hgo =>
    rw [followLinks_lost hk hgo, route_lost hk hgo]
    simp

/-- **A look-up that ends at a free name** in a directory comes there by places that exist. -/
theorem route_of_absent {dir : List Name} {x : Name} (hhere : d.DirAt here)
    (h : followLinks d.root final k here steps = .ok (.absent dir x)) :
    (d.route final k here steps).goal = some (dir ++ [x]) ∧ d.DirAt dir ∧
      d.kindAt (dir ++ [x]) = none ∧
      ∀ q ∈ (d.route final k here steps).met, q ≠ dir ++ [x] → d.kindAt q ≠ none := by
  induction k, here, steps using route_induction d final with
  | nil k here =>
    rw [followLinks_nil] at h
    split at h <;> simp at h
  | stay k here rest ih =>
    rw [followLinks_stay] at h
    rw [route_stay]
    exact ih hhere h
  | up k here rest ih =>
    rw [followLinks_up] at h
    rw [route_up]
    exact ih hhere.dropLast h
  | down k here y rest hp ih =>
    rw [route_down hp]
    rcases hp with hp | hp
    · rw [followLinks_missing hp] at h
      cases rest with
      | cons s rest => simp at h
      | nil =>
        -- the free name is the last thing on the way
        simp only [List.isEmpty_nil, if_true, Except.ok.injEq, Place.absent.injEq] at h
        obtain ⟨rfl, rfl⟩ := h
        rw [route_nil]
        refine ⟨rfl, hhere, hp, fun q hq hne => ?_⟩
        exact absurd (by simpa [Route.past] using hq) hne
    · rw [followLinks_dir hp] at h
      obtain ⟨h1, h2, h3, h4⟩ := ih hp h
      obtain ⟨l, hl⟩ := hp
      refine ⟨h1, h2, h3, fun q hq hne => ?_⟩
      rcases List.mem_cons.mp hq with rfl | hq
      · simp [hl]
      · exact h4 q hq hne
  | file k here y rest data hk =>
    rw [followLinks_file hk] at h
    split at h <;> simp at h
  | stop k here y target hf hk =>
    subst hf
    rw [followLinks_stop hk] at h
    simp at h
  | turn k here y rest target hk hgo ih =>
    rw [followLinks_turn hk hgo] at h
    rw [route_turn hk hgo]
    obtain ⟨h1, h2, h3, h4⟩ := ih (dirAt_origin hhere target) h
    refine ⟨h1, h2, h3, fun q hq hne => ?_⟩
    rcases List.mem_cons.mp hq with rfl | hq
    · simp [hk]
    · exact h4 q hq hne
  | lost here y rest target hk hgo =>
    rw [followLinks_lost hk hgo] at h
    simp at h

/-- The free name at which a look-up ends is the last thing on the way. -/
theorem mem_met_of_absent {dir : List Name} {x : Name}
    (h : followLinks d.root final k here steps = .ok (.absent dir x)) :
    dir ++ [x] ∈ (d.route final k here steps).met := by
  induction k, here, steps using route_induction d final with
  | nil k here =>
    rw [followLinks_nil] at h
    split at h <;> simp at h
  | stay k here rest ih =>
    rw [followLinks_stay] at h
    rw [route_stay]
    exact ih h
  | up k here rest ih =>
    rw [followLinks_up] at h
    rw [route_up]
    exact ih h
  | down k here y rest hp ih =>
    rw [route_down hp]
    rcases hp with hp | hp
    · rw [followLinks_missing hp] at h
      split at h
      · obtain ⟨rfl, rfl⟩ := Place.absent.inj (Except.ok.inj h)
        exact List.mem_cons_self ..
      · cases h
    · rw [followLinks_dir hp] at h
      exact List.mem_cons_of_mem _ (ih h)
  | file k here y rest data hk =>
    rw [followLinks_file hk] at h
    split at h <;> cases h
  | stop k here y target hf hk =>
    subst hf
    rw [followLinks_stop hk] at h
    cases h
  | turn k here y rest target hk hgo ih =>
    rw [followLinks_turn hk hgo] at h
    rw [route_turn hk hgo]
    exact List.mem_cons_of_mem _ (ih h)
  | lost here y rest target hk hgo =>
    rw [followLinks_lost hk hgo] at h
    cases h

end

/-! ### Ways through two disks -/

/-- There is a file at a place. -/
def FileAt (d : Disk) (place : List Name) : Prop :=
  ∃ data, d.kindAt place = some (.file data)

/-- There is a symbolic link at a place. -/
def LinkAt (d : Disk) (place : List Name) : Prop :=
  ∃ target, d.kindAt place = some (.link target)

instance (d : Disk) : DecidablePred d.LinkAt := fun place =>
  decidable_of_iff ((d.get? place).any Node.isLink = true) (by
    rw [LinkAt, kindAt]
    cases d.get? place with
    | none => simp
    | some n => cases n <;> simp [Node.isLink, Node.kind])

/-- Two disks are alike at a place for ways that come by it. -/
def Alike (d d' : Disk) (place : List Name) : Prop :=
  d'.kindAt place = d.kindAt place ∨ d.Passable place ∧ d'.Passable place ∨
    d.FileAt place ∧ d'.FileAt place

/-- A way does not depend on a place where it ends, or can go on, in both disks. -/
def AlikeAlong (d d' : Disk) (r : Route) (place : List Name) : Prop :=
  d.Alike d' place ∨
    r.goal ≠ none ∧ d.FileAt place ∧ d'.Passable place

theorem Passable.of_kindAt_eq {d d' : Disk} {place : List Name} (h : d.Passable place)
    (hk : d'.kindAt place = d.kindAt place) : d'.Passable place := by
  rcases h with h | ⟨l, h⟩
  · exact .inl (hk.trans h)
  · exact .inr ⟨l, hk.trans h⟩

theorem not_passable_of_file {d : Disk} {place : List Name} {data : FileData}
    (h : d.kindAt place = some (.file data)) : ¬ d.Passable place := by
  rintro (hn | ⟨l, hl⟩)
  · simp [h] at hn
  · simp [h] at hl

theorem not_passable_of_link {d : Disk} {place : List Name} {target : Path}
    (h : d.kindAt place = some (.link target)) : ¬ d.Passable place := by
  rintro (hn | ⟨l, hl⟩)
  · simp [h] at hn
  · simp [h] at hl

/-- Where a way comes by a link, there is the same link in a disk that is alike. -/
theorem AlikeAlong.kindAt_of_link {d d' : Disk} {r : Route} {place : List Name} {target : Path}
    (h : d.AlikeAlong d' r place) (hk : d.kindAt place = some (.link target)) :
    d'.kindAt place = some (.link target) := by
  have hfile : ¬ d.FileAt place := by
    rintro ⟨data, hdata⟩
    rw [hk] at hdata
    cases hdata
  rcases h with (hsame | ⟨hp, -⟩ | ⟨hf, -⟩) | ⟨-, hf, -⟩
  · exact hsame.trans hk
  · exact absurd hp (not_passable_of_link hk)
  · exact absurd hf hfile
  · exact absurd hf hfile

section

variable {d d' : Disk} {final : Bool} {k : ℕ} {here : List Name} {steps : List Path.Step}

/-- **A way is the same in a disk that is alike** at the places it comes by. -/
theorem route_eq_of_alike
    (h : ∀ q ∈ (d.route final k here steps).met, d.AlikeAlong d' (d.route final k here steps) q) :
    d'.route final k here steps = d.route final k here steps := by
  induction k, here, steps using route_induction d final with
  | nil k here => rw [route_nil, route_nil]
  | stay k here rest ih =>
    rw [route_stay] at h
    rw [route_stay, route_stay, ih h]
  | up k here rest ih =>
    rw [route_up] at h
    rw [route_up, route_up, ih h]
  | down k here x rest hp ih =>
    rw [route_down hp] at h
    have hp' : d'.Passable (here ++ [x]) := by
      rcases h _ (List.mem_cons_self ..) with
        (hk | ⟨-, hp'⟩ | ⟨⟨data, hf⟩, -⟩) | ⟨-, ⟨data, hf⟩, -⟩
      · exact hp.of_kindAt_eq hk
      · exact hp'
      · exact absurd hp (not_passable_of_file hf)
      · exact absurd hp (not_passable_of_file hf)
    rw [route_down hp, route_down hp', ih fun q hq => h q (List.mem_cons_of_mem _ hq)]
  | file k here x rest data hk =>
    rw [route_file hk] at h ⊢
    rcases h _ (List.mem_singleton_self _) with
      (hk' | ⟨hp, -⟩ | ⟨-, data', hk'⟩) | ⟨hgoal, -, hp'⟩
    · rw [route_file (hk'.trans hk)]
    · exact absurd hp (not_passable_of_file hk)
    · rw [route_file hk']
    · -- the way ends at the file, and there it ends also if the file is gone
      cases rest with
      | nil => rw [route_down hp', route_nil]; rfl
      | cons s rest => simp at hgoal
  | stop k here x target hf hk =>
    subst hf
    rw [route_stop hk] at h ⊢
    exact route_stop ((h _ (List.mem_singleton_self _)).kindAt_of_link hk)
  | turn k here x rest target hk hgo ih =>
    rw [route_turn hk hgo] at h ⊢
    have hk' := (h _ (List.mem_cons_self ..)).kindAt_of_link hk
    rw [route_turn hk' hgo, ih fun q hq => h q (List.mem_cons_of_mem _ hq)]
  | lost here x rest target hk hgo =>
    rw [route_lost hk hgo] at h ⊢
    exact route_lost ((h _ (List.mem_singleton_self _)).kindAt_of_link hk) hgo

/-- **The way to a place that was erased.**  If no link in the erased tree was followed, the way
ends at the place that is free now. -/
theorem route_of_erased {place : List Name}
    (hgoal : (d.route false k here steps).goal = some place)
    (hturns : ∀ q ∈ (d.route false k here steps).turns, ¬ place <+: q)
    (herased : ∀ q, d'.kindAt q = if place <+: q then none else d.kindAt q) :
    d'.route final k here steps = d.route false k here steps := by
  induction k, here, steps using route_induction d false with
  | nil k here => rw [route_nil, route_nil]
  | stay k here rest ih =>
    rw [route_stay] at hgoal hturns
    rw [route_stay, route_stay, ih hgoal hturns]
  | up k here rest ih =>
    rw [route_up] at hgoal hturns
    rw [route_up, route_up, ih hgoal hturns]
  | down k here x rest hp ih =>
    rw [route_down hp] at hgoal hturns
    have hp' : d'.Passable (here ++ [x]) := by
      by_cases hq : place <+: here ++ [x]
      · exact .inl ((herased _).trans (if_pos hq))
      · exact hp.of_kindAt_eq ((herased _).trans (if_neg hq))
    rw [route_down hp, route_down hp', ih hgoal hturns]
  | file k here x rest data hk =>
    rw [route_file hk] at hgoal ⊢
    cases rest with
    | cons s rest => simp at hgoal
    | nil =>
      obtain rfl : here ++ [x] = place := by simpa using hgoal
      have hp' : d'.Passable (here ++ [x]) :=
        .inl ((herased _).trans (if_pos (List.prefix_refl _)))
      rw [route_down hp', route_nil]
      rfl
  | stop k here x target hf hk =>
    -- the link at the end is the root of the erased tree
    rw [route_stop hk] at hgoal ⊢
    obtain rfl : here ++ [x] = place := by simpa using hgoal
    have hp' : d'.Passable (here ++ [x]) :=
      .inl ((herased _).trans (if_pos (List.prefix_refl _)))
    rw [route_down hp', route_nil]
    rfl
  | turn k here x rest target hk hgo ih =>
    rw [route_turn hk hgo] at hgoal hturns ⊢
    -- the link is not in the erased tree, so it is still there
    have hq : ¬ place <+: here ++ [x] := hturns _ (List.mem_cons_self ..)
    have hk' : d'.kindAt (here ++ [x]) = some (.link target) :=
      (herased _).trans ((if_neg hq).trans hk)
    rw [route_turn hk' (.inl (by simpa using hgo)),
      ih hgoal fun q hq => hturns q (List.mem_cons_of_mem _ hq)]
  | lost here x rest target hk hgo =>
    rw [route_lost hk hgo] at hgoal
    simp at hgoal

end

/-! ### Ways of longer paths -/

section

variable {d : Disk} {k : ℕ} {here : List Name} {steps : List Path.Step}

/-- A way that follows a link at its end goes further than one that does not, if at all. -/
theorem route_true_or_stopped (d : Disk) (k : ℕ) (here : List Name) (steps : List Path.Step) :
    d.route true k here steps = d.route false k here steps ∨
      ∃ place target, (d.route false k here steps).goal = some place ∧
        d.kindAt place = some (.link target) ∧
        ∀ q ∈ (d.route false k here steps).met, q ∈ (d.route true k here steps).met := by
  induction k, here, steps using route_induction d true with
  | nil k here => exact .inl (by rw [route_nil, route_nil])
  | stay k here rest ih => rw [route_stay, route_stay]; exact ih
  | up k here rest ih => rw [route_up, route_up]; exact ih
  | down k here x rest hp ih =>
    rw [route_down hp, route_down hp]
    rcases ih with ih | ⟨place, target, h1, h2, h3⟩
    · exact .inl (by rw [ih])
    · exact .inr ⟨place, target, h1, h2, fun q hq =>
        List.mem_cons.mpr ((List.mem_cons.mp hq).imp_right (h3 q))⟩
  | file k here x rest data hk => exact .inl (by rw [route_file hk, route_file hk])
  | stop k here x target hf hk => simp at hf
  | turn k here x rest target hk hgo ih =>
    cases rest with
    | nil =>
      -- here the two ways part: one stops at the link, the other follows it
      refine .inr ⟨here ++ [x], target, by rw [route_stop hk], hk, fun q hq => ?_⟩
      rw [route_stop hk, List.mem_singleton] at hq
      rw [route_turn hk hgo, hq]
      exact List.mem_cons_self ..
    | cons s rest =>
      rw [route_turn hk hgo, route_turn hk (.inl (by simp))]
      rcases ih with ih | ⟨place, target', h1, h2, h3⟩
      · exact .inl (by rw [ih])
      · exact .inr ⟨place, target', h1, h2, fun q hq =>
          List.mem_cons.mpr ((List.mem_cons.mp hq).imp_right (h3 q))⟩
  | lost here x rest target hk hgo =>
    cases rest with
    | nil =>
      refine .inr ⟨here ++ [x], target, by rw [route_stop hk], hk, fun q hq => ?_⟩
      rw [route_stop hk, List.mem_singleton] at hq
      rw [route_lost hk hgo, hq]
      exact List.mem_cons_self ..
    | cons s rest => exact .inl (by rw [route_lost hk hgo, route_lost hk (.inl (by simp))])

/-- **A longer way goes the shorter one first,** unless that is blocked or ends at a file. -/
theorem route_append (d : Disk) (final : Bool) (k : ℕ) (here : List Name)
    (steps : List Path.Step) {more : List Path.Step} (hmore : more ≠ []) :
    ((d.route final k here (steps ++ more)).goal = none ∧
        ∀ g, (d.route true k here steps).goal = some g → ∃ data, d.kindAt g = some (.file data)) ∨
      ∃ g k', (d.route true k here steps).goal = some g ∧
        d.route final k here (steps ++ more) =
          (d.route true k here steps).andThen (d.route final k' g more) := by
  induction k, here, steps using route_induction d true with
  | nil k here =>
    refine .inr ⟨here, k, by rw [route_nil], ?_⟩
    rw [route_nil, List.nil_append]
    rfl
  | stay k here rest ih =>
    rw [List.cons_append, route_stay, route_stay]
    exact ih
  | up k here rest ih =>
    rw [List.cons_append, route_up, route_up]
    exact ih
  | down k here x rest hp ih =>
    rw [List.cons_append, route_down hp, route_down hp]
    rcases ih with ⟨h1, h2⟩ | ⟨g, k', h1, h2⟩
    · exact .inl ⟨h1, h2⟩
    · exact .inr ⟨g, k', h1, by rw [h2]; rfl⟩
  | file k here x rest data hk =>
    rw [List.cons_append, route_file hk, route_file hk]
    refine .inl ⟨by simp [hmore], fun g hg => ?_⟩
    split at hg
    · obtain rfl : here ++ [x] = g := by simpa using hg
      exact ⟨data, hk⟩
    · simp at hg
  | stop k here x target hf hk => simp at hf
  | turn k here x rest target hk hgo ih =>
    rw [List.cons_append, route_turn hk hgo, route_turn hk (.inl (by simp [hmore])),
      ← List.append_assoc]
    rcases ih with ⟨h1, h2⟩ | ⟨g, k', h1, h2⟩
    · exact .inl ⟨h1, h2⟩
    · exact .inr ⟨g, k', h1, by rw [h2]; rfl⟩
  | lost here x rest target hk hgo =>
    rw [List.cons_append, route_lost hk hgo, route_lost hk (.inl (by simp [hmore]))]
    exact .inl ⟨rfl, by simp⟩

theorem route_name {x : Name} :
    d.route false k here [.down x] = ⟨[here ++ [x]], [], some (here ++ [x])⟩ := by
  rcases hk : d.kindAt (here ++ [x]) with - | data | target | l
  · rw [route_down (.inl hk), route_nil]; rfl
  · rw [route_file hk]; rfl
  · rw [route_stop hk]
  · rw [route_down (.inr ⟨l, hk⟩), route_nil]; rfl

/-- A way that comes by a file ends there, or is blocked. -/
theorem goal_of_file_met {final : Bool} {q : List Name} {data : FileData}
    (hq : q ∈ (d.route final k here steps).met) (hfile : d.kindAt q = some (.file data)) :
    (d.route final k here steps).goal = none ∨ (d.route final k here steps).goal = some q := by
  induction k, here, steps using route_induction d final with
  | nil k here => simp [route_nil] at hq
  | stay k here rest ih =>
    rw [route_stay] at hq ⊢
    exact ih hq
  | up k here rest ih =>
    rw [route_up] at hq ⊢
    exact ih hq
  | down k here x rest hp ih =>
    rw [route_down hp] at hq ⊢
    rcases List.mem_cons.mp hq with rfl | hq
    · exact absurd hp (not_passable_of_file hfile)
    · exact ih hq
  | file k here x rest old hk =>
    rw [route_file hk] at hq ⊢
    obtain rfl := List.mem_singleton.mp hq
    cases rest with
    | nil => exact .inr rfl
    | cons s rest => exact .inl rfl
  | stop k here x target hf hk =>
    subst hf
    rw [route_stop hk] at hq ⊢
    exact .inr (by rw [List.mem_singleton.mp hq])
  | turn k here x rest target hk hgo ih =>
    rw [route_turn hk hgo] at hq ⊢
    rcases List.mem_cons.mp hq with rfl | hq
    · simp [hk] at hfile
    · exact ih hq
  | lost here x rest target hk hgo => exact .inl (by rw [route_lost hk hgo])

/-- **Steps that lead neither up nor to a link** lead to where their names say, unless the way is
blocked. -/
theorem route_inner (final : Bool) (k : ℕ) {steps : List Path.Step} (hup : .up ∉ steps)
    (h : ∀ place target, here <+: place → d.kindAt place ≠ some (.link target)) :
    (d.route final k here steps).goal = none ∨
      (d.route final k here steps).goal = some (here ++ steps.filterMap Path.Step.name?) := by
  -- the first name leads to a place below which there is no link either
  induction here, steps using steps_induction d with
  | nil here => exact .inr (by rw [route_nil, List.filterMap_nil, List.append_nil])
  | stay here rest ih =>
    rw [route_stay, List.filterMap_cons_none rfl]
    exact ih (fun hmem => hup (List.mem_cons_of_mem _ hmem)) h
  | up here rest ih => exact absurd (List.mem_cons_self ..) hup
  | down here x rest hp ih =>
    have hcons : here ++ (Path.Step.down x :: rest).filterMap Path.Step.name? =
        here ++ [x] ++ rest.filterMap Path.Step.name? :=
      (List.append_assoc here [x] _).symm
    rw [route_down hp, hcons]
    exact ih (fun hmem => hup (List.mem_cons_of_mem _ hmem)) fun place target hpre =>
      h place target ((List.prefix_append _ _).trans hpre)
  | file here x rest data hk =>
    rw [route_file hk]
    cases rest with
    | nil => exact .inr rfl
    | cons s rest => exact .inl rfl
  | link here x rest target hk => exact absurd hk (h _ target (List.prefix_append _ _))

/-- Names that do not lead to a link lead to where they say, unless the way is blocked. -/
theorem route_names (final : Bool) (k : ℕ) (names : List Name)
    (h : ∀ place target, here <+: place → d.kindAt place ≠ some (.link target)) :
    (d.route final k here (names.map .down)).goal = none ∨
      (d.route final k here (names.map .down)).goal = some (here ++ names) := by
  have hup : Path.Step.up ∉ names.map Path.Step.down := by simp
  have hinner := route_inner final k hup h
  rwa [Path.filterMap_name?_map_down] at hinner

/-- **A longer look-up succeeds** only if the shorter one comes to a directory. -/
theorem exists_dir_of_followLinks_append {final : Bool} {more : List Path.Step} {place : Place}
    (hmore : more ≠ []) (hhere : d.DirAt here)
    (h : followLinks d.root final k here (steps ++ more) = .ok place) :
    ∃ g n k', followLinks d.root true k here steps = .ok (.present g n) ∧ n.isDir = true ∧
      followLinks d.root final k' g more = .ok place := by
  induction k, here, steps using route_induction d true with
  | nil k here =>
    obtain ⟨n, hn, hdir⟩ := dirAt_iff.mp hhere
    exact ⟨here, n, k, by rw [followLinks_nil, hn], hdir, h⟩
  | stay k here rest ih =>
    rw [List.cons_append, followLinks_stay] at h
    rw [followLinks_stay]
    exact ih hhere h
  | up k here rest ih =>
    rw [List.cons_append, followLinks_up] at h
    rw [followLinks_up]
    exact ih hhere.dropLast h
  | down k here x rest hp ih =>
    rw [List.cons_append] at h
    rcases hp with hp | hp
    · rw [followLinks_missing hp] at h
      simp [hmore] at h
    · rw [followLinks_dir hp] at h ⊢
      exact ih hp h
  | file k here x rest data hk =>
    rw [List.cons_append, followLinks_file hk] at h
    simp [hmore] at h
  | stop k here x target hf hk => simp at hf
  | turn k here x rest target hk hgo ih =>
    rw [List.cons_append, followLinks_turn hk (.inl (by simp [hmore])), ← List.append_assoc] at h
    rw [followLinks_turn hk hgo]
    exact ih (dirAt_origin hhere target) h
  | lost here x rest target hk hgo =>
    rw [List.cons_append, followLinks_lost hk (.inl (by simp [hmore]))] at h
    simp at h

/-- A name leads to what it stands for, or is free. -/
theorem followLinks_name (x : Name) :
    followLinks d.root false k here [.down x] =
      .ok (match d.get? (here ++ [x]) with
        | none => .absent here x
        | some n => .present (here ++ [x]) n) := by
  cases hn : d.get? (here ++ [x]) with
  | none => exact followLinks_missing (kindAt_eq_none_iff.mpr hn)
  | some n =>
    have hk := kindAt_of_get? hn
    cases n with
    | file data => exact followLinks_file hk
    | link target => exact followLinks_stop hk
    | dir l es => rw [followLinks_dir ⟨l, hk⟩, followLinks_nil, hn]

/-- **A look-up that comes to a directory** goes on from there, whatever the further steps are. -/
theorem exists_followLinks_append {g : List Name} {n : Node}
    (h : followLinks d.root true k here steps = .ok (.present g n))
    (hn : n.isDir = true) :
    ∃ k', ∀ final more, more ≠ [] →
      followLinks d.root final k here (steps ++ more) = followLinks d.root final k' g more := by
  induction k, here, steps using route_induction d true with
  | nil k here =>
    rw [followLinks_nil] at h
    cases hget : d.get? here with
    | none => simp [hget] at h
    | some m =>
      rw [hget] at h
      obtain ⟨rfl, -⟩ := Place.present.inj (Except.ok.inj h)
      exact ⟨k, fun _ _ _ => rfl⟩
  | stay k here rest ih =>
    obtain ⟨k', hk'⟩ := ih (followLinks_stay ▸ h)
    exact ⟨k', fun final more hmore => by
      rw [List.cons_append, followLinks_stay, hk' final more hmore]⟩
  | up k here rest ih =>
    obtain ⟨k', hk'⟩ := ih (followLinks_up ▸ h)
    exact ⟨k', fun final more hmore => by
      rw [List.cons_append, followLinks_up, hk' final more hmore]⟩
  | down k here x rest hp ih =>
    rcases hp with hp | hp
    · rw [followLinks_missing hp] at h
      split at h <;> cases h
    · obtain ⟨k', hk'⟩ := ih (followLinks_dir hp ▸ h)
      exact ⟨k', fun final more hmore => by
        rw [List.cons_append, followLinks_dir hp, hk' final more hmore]⟩
  | file k here x rest data hk =>
    rw [followLinks_file hk] at h
    split at h
    · obtain ⟨-, rfl⟩ := Place.present.inj (Except.ok.inj h)
      cases hn
    · cases h
  | stop k here x target hf hk => cases hf
  | turn k here x rest target hk hgo ih =>
    obtain ⟨k', hk'⟩ := ih (followLinks_turn hk hgo ▸ h)
    exact ⟨k', fun final more hmore => by
      rw [List.cons_append, followLinks_turn hk (.inl (by simp [hmore])), ← List.append_assoc,
        hk' final more hmore]⟩
  | lost here x rest target hk hgo =>
    rw [followLinks_lost hk hgo] at h
    cases h

end

end Disk

end SuiteGate
