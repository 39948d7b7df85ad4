import SuiteGate.Proofs.Disk.Changes
/-!
# Moving a directory

A directory can get another name in the directory that it stands in, if that is writable, unless the
name is taken (`rename_child`).  What takes the name decides how the move fails (`Disk.obstacle?`):
an empty directory does not count, one with entries is not empty, anything else is no directory.  A
move takes the whole tree along and leaves everything else alone (`Disk.Moved`).
-/

namespace SuiteGate.Disk

/-! ### Two names in one directory -/

section

variable {d : Disk} {cwd above : List Name} {p : Path} {x : Name} {n : Node}

/-- **Where one name of a directory leads,** every name leads. -/
theorem resolveSteps_child (h : d.locate cwd (p.child x.text) false = .ok (above ++ [x], n))
    {y : Name} (hy : y.text.toList.contains '\x00' = false) :
    d.DirAt above ∧ d.resolveSteps cwd (p.child y.text) (p.child y.text).steps false =
      .ok (match d.get? (above ++ [y]) with
        | none => .absent above y
        | some m => .present (above ++ [y]) m) := by
  obtain ⟨hfol, hgoal, hn, hmet⟩ := locate_eq_ok_iff.mp h
  have hway : followLinks d.root false maxLinks (origin cwd (p.child x.text))
      (p.steps ++ [.down x]) = .ok (.present (above ++ [x]) n) := by
    rw [← stepsOf_child]
    exact followLinks_eq_present_iff.mpr ⟨hgoal, hn, hmet⟩
  obtain ⟨g, m, k, hpart, hdir, hlast⟩ :=
    exists_dir_of_followLinks_append (List.cons_ne_nil _ []) hfol.start hway
  obtain ⟨-, hg, -⟩ := followLinks_eq_present_iff.mp hpart
  -- the directory is the one above
  obtain ⟨hgoal', -⟩ := followLinks_eq_present_iff.mp hlast
  rw [route_name, Option.some.injEq] at hgoal'
  obtain ⟨rfl, -⟩ := List.append_inj' hgoal' rfl
  have habove : d.DirAt g := dirAt_iff.mpr ⟨m, hg, hdir⟩
  obtain ⟨k', hgoes⟩ := exists_followLinks_append hpart hdir
  have horigin : ∀ z : Name, origin cwd (p.child z.text) = origin cwd p := fun z => by
    rw [Path.child_eq, origin_join (Path.isAbsolute_ofJoin _)]
  refine ⟨habove, resolveSteps_eq_ok_iff.mpr ⟨⟨?_, Path.isEmpty_text_child p y, ?_⟩, ?_⟩⟩
  · have hp := hfol.noNul
    rw [Path.contains_nul_child, Bool.or_eq_false_iff] at hp
    rw [Path.contains_nul_child, hp.1, hy]
    rfl
  · rw [horigin, ← horigin x]
    exact hfol.start
  · rw [horigin, ← horigin x, Path.steps_child, hgoes _ _ (List.cons_ne_nil _ [])]
    exact followLinks_name y

end

/-! ### The move -/

/-- What stood at a place stands at another one, with everything below it, and nothing else
changed. -/
structure Moved (d : Disk) (source target : List Name) (d' : Disk) : Prop where
  arrived : ∀ rel, d'.get? (target ++ rel) = d.get? (source ++ rel)
  gone : ∀ rel, d'.get? (source ++ rel) = none
  elsewhere : ∀ q, ¬ source <+: q → ¬ target <+: q → d'.kindAt q = d.kindAt q

/-- What keeps a directory from being moved to a place beside it. -/
def obstacle? (d : Disk) (place : List Name) : Option OsError :=
  if d.isWritable place.dropLast then
    match d.get? place with
    | none | some (.dir _ []) => none
    | some (.dir _ (_ :: _)) => some .notEmpty
    | some (.file _) | some (.link _) => some .notDirectory
  else some .permissionDenied

section

variable {d : Disk} {cwd above : List Name} {p : Path} {x y : Name} {n : Node}

theorem apart_names (hxy : x ≠ y) : Apart (above ++ [x]) (above ++ [y]) := by
  have happend : ∀ {a b : Name}, above ++ [a] <+: above ++ [b] → a = b := fun h =>
    List.singleton_inj.mp (List.append_cancel_left (h.eq_of_length (by simp)))
  exact ⟨fun h => hxy (happend h), fun h => hxy (happend h).symm⟩

/-- A directory with a new name in the directory that it stands in. -/
theorem moved_of_put (hxy : x ≠ y) (habove : d.DirAt above) (hx : d.get? (above ++ [x]) = some n)
    (hn : n.Distinct) :
    d.Moved (above ++ [x]) (above ++ [y])
      ((d.erase (above ++ [x])).put (above ++ [y]) n hn).tick := by
  have hapart : Apart (above ++ [x]) (above ++ [y]) := apart_names hxy
  have hdir : (d.erase (above ++ [x])).DirAt above := by
    obtain ⟨l, hl⟩ := habove
    refine ⟨l, ?_⟩
    rw [kindAt_erase (by simp), if_neg fun h => absurd h.length_le (by simp), hl]
  have harrived : ∀ rel, ((d.erase (above ++ [x])).put (above ++ [y]) n hn).get?
      (above ++ [y] ++ rel) = n.get? rel := fun rel =>
    get?_alter_append above y hdir rfl rel
  constructor
  · intro rel
    rw [get?_tick, harrived, get?, Node.get?_append, ← get?, hx]
    rfl
  · intro rel
    rw [get?_tick, ← kindAt_eq_none_iff, kindAt_put hdir,
      if_neg (by simpa using (hapart.append rel []).2), kindAt_erase (by simp),
      if_pos (List.prefix_append _ _)]
  · intro q hsource htarget
    rw [kindAt_tick, kindAt_put hdir, if_neg htarget, kindAt_erase (by simp), if_neg hsource]

/-- A new name for a directory, by what keeps it from its new place. -/
theorem rename_eq_of_locate (h : d.locate cwd (p.child x.text) false = .ok (above ++ [x], n))
    (hdistinct : n.Distinct) (hn : n.isDir = true) (hxy : x ≠ y)
    (hy : y.text.toList.contains '\x00' = false) :
    d.rename cwd (p.child x.text) (p.child y.text) =
      match d.obstacle? (above ++ [y]) with
      | none => .ok ((d.erase (above ++ [x])).put (above ++ [y]) n hdistinct).tick
      | some e => .error (.os e) := by
  obtain ⟨hfol, -, hget, -⟩ := locate_eq_ok_iff.mp h
  have hx : x.text.toList.contains '\x00' = false := by
    have hp := hfol.noNul
    rw [Path.contains_nul_child, Bool.or_eq_false_iff] at hp
    exact hp.2
  obtain ⟨-, hsource⟩ := resolveSteps_child h hx
  obtain ⟨-, htarget⟩ := resolveSteps_child h hy
  rw [hget] at hsource
  have hapart : Apart (above ++ [x]) (above ++ [y]) := apart_names hxy
  have hends : ∀ z : Name, endsInName (p.child z.text) = true := fun z => by
    rw [endsInName, Path.steps_child, List.getLast?_concat]
  have hprefix : (above ++ [x]).isPrefixOf (above ++ [y]) = false := by
    rw [Bool.eq_false_iff, ne_eq, List.isPrefixOf_iff_prefix]
    exact hapart.1
  have hne : above ++ [y] ≠ above ++ [x] := fun h => hapart.2 (h ▸ List.prefix_rfl)
  have hlets : d.letsMove (above ++ [x]) (above ++ [y]) n = d.isWritable above := by
    simp [letsMove]
  rw [rename, obstacle?, List.dropLast_concat, hsource, htarget]
  cases hw : d.isWritable above
  all_goals rcases d.get? (above ++ [y]) with _ | ⟨_⟩ | ⟨_⟩ | ⟨_, _ | ⟨e, es⟩⟩
  -- the checks that come before a look at what has the name
  all_goals
    simp only [hends, hn, hprefix, hne, hlets, hw, bind, Except.bind, pure, Except.pure,
      Bool.not_true, Bool.not_false, Bool.or_self, Bool.false_eq_true, if_true, if_false,
      Bool.and_false, Bool.false_and, throw, throwThe, MonadExceptOf.throw]
  -- nothing has the name, or an empty directory
  all_goals
    split
    · next m hm =>
      obtain rfl : m = n := Option.some.inj (hm.symm.trans hget)
      rfl
    · next hnone => cases hnone.symm.trans hget

/-- **A directory gets a new name** in the directory that it stands in, unless something is in the
way. -/
theorem rename_child (h : d.locate cwd (p.child x.text) false = .ok (above ++ [x], n))
    (hn : n.isDir = true) (hxy : x ≠ y) (hy : y.text.toList.contains '\x00' = false) :
    match d.obstacle? (above ++ [y]) with
    | none => ∃ d', d.rename cwd (p.child x.text) (p.child y.text) = .ok d' ∧
        d.Moved (above ++ [x]) (above ++ [y]) d'
    | some e => d.rename cwd (p.child x.text) (p.child y.text) = .error (.os e) := by
  obtain ⟨-, -, hget, -⟩ := locate_eq_ok_iff.mp h
  obtain ⟨habove, -⟩ := resolveSteps_child h hy
  rw [rename_eq_of_locate h (Node.distinct_of_get? d.distinct hget) hn hxy hy]
  cases d.obstacle? (above ++ [y]) with
  | none => exact ⟨_, rfl, moved_of_put hxy habove hget _⟩
  | some e => rfl

end

end SuiteGate.Disk
