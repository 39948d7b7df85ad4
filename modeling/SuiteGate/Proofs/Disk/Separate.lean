import SuiteGate.Proofs.Disk.Changes
/-!
# Trees of their own

Two paths lead to trees of their own (`Disk.Separate`) if neither leads into the tree of the other,
be it at its end or on its way (`Disk.Avoids`), and each is settled (`Disk.Settled`).  A path that
is not settled can lead somewhere else once its own tree is gone: through a link in that tree, or
out of a directory that is not there.

The headlines are `Separate.of_erased`, that both paths lead where they did after the tree of one of
them was removed, and `Reaches.of_pruned`, that what one of them leads to is still there after
things were removed from the tree of the other (`Disk.Pruned`).
-/

namespace SuiteGate.Disk

/-- The places that a path leads by: where it starts, what it comes by and where it ends. -/
def trail (d : Disk) (cwd : List Name) (final : Bool) (p : Path) : List (List Name) :=
  origin cwd p :: ((d.wayTo cwd final p).met ++ (d.wayTo cwd final p).goal.toList)

/-- A path leads by no place in the tree that another leads to, whether links at their ends are
followed or not. -/
def Avoids (d : Disk) (cwd : List Name) (p q : Path) : Prop :=
  ∀ final final', ∀ tree ∈ (d.wayTo cwd final' q).goal, ∀ place ∈ d.trail cwd final p,
    ¬ tree <+: place

/-- A path turns at no link in its own tree, and leads to what stands where its way ends. -/
structure Settled (d : Disk) (cwd : List Name) (p : Path) : Prop where
  turns : ∀ tree ∈ (d.wayTo cwd false p).goal, ∀ turn ∈ (d.wayTo cwd false p).turns,
    ¬ tree <+: turn
  leads : ∀ tree ∈ (d.wayTo cwd true p).goal, d.kindAt tree ≠ none → d.pathExists cwd p = true

/-- **Two paths lead to trees of their own.** -/
structure Separate (d : Disk) (cwd : List Name) (p q : Path) : Prop where
  left_avoids : d.Avoids cwd p q
  right_avoids : d.Avoids cwd q p
  left_settled : d.Settled cwd p
  right_settled : d.Settled cwd q

instance (d : Disk) (cwd : List Name) (p q : Path) : Decidable (d.Avoids cwd p q) :=
  inferInstanceAs (Decidable (∀ final final', ∀ tree ∈ (d.wayTo cwd final' q).goal,
    ∀ place ∈ d.trail cwd final p, ¬ tree <+: place))

instance (d : Disk) (cwd : List Name) (p : Path) : Decidable (d.Settled cwd p) :=
  decidable_of_iff
    ((∀ tree ∈ (d.wayTo cwd false p).goal, ∀ turn ∈ (d.wayTo cwd false p).turns,
      ¬ tree <+: turn) ∧
      ∀ tree ∈ (d.wayTo cwd true p).goal, d.kindAt tree ≠ none → d.pathExists cwd p = true)
    ⟨fun h => ⟨h.1, h.2⟩, fun h => ⟨h.turns, h.leads⟩⟩

instance (d : Disk) (cwd : List Name) (p q : Path) : Decidable (d.Separate cwd p q) :=
  decidable_of_iff
    (d.Avoids cwd p q ∧ d.Avoids cwd q p ∧ d.Settled cwd p ∧ d.Settled cwd q)
    ⟨fun h => ⟨h.1, h.2.1, h.2.2.1, h.2.2.2⟩, fun h => ⟨h.1, h.2, h.3, h.4⟩⟩

section

variable {d d' : Disk} {cwd : List Name} {p q : Path}

theorem mem_trail_of_met {final : Bool} {place : List Name}
    (h : place ∈ (d.wayTo cwd final p).met) : place ∈ d.trail cwd final p :=
  List.mem_cons_of_mem _ (List.mem_append_left _ h)

theorem mem_trail_of_goal {final : Bool} {place : List Name}
    (h : place ∈ (d.wayTo cwd final p).goal) : place ∈ d.trail cwd final p :=
  List.mem_cons_of_mem _ (List.mem_append_right _ (Option.mem_toList.mpr h))

theorem Separate.symm (h : d.Separate cwd p q) : d.Separate cwd q p :=
  ⟨h.right_avoids, h.left_avoids, h.right_settled, h.left_settled⟩

/-! ### Removing from a tree -/

/-- Things were removed from the tree that a path leads to, and nothing else changed. -/
structure Pruned (d : Disk) (cwd : List Name) (p : Path) (d' : Disk) : Prop where
  within : d'.Within d
  outside : ∀ place, (∀ tree ∈ (d.wayTo cwd false p).goal, ¬ tree <+: place) →
    d'.kindAt place = d.kindAt place

theorem Pruned.refl (d : Disk) (cwd : List Name) (p : Path) : d.Pruned cwd p d :=
  ⟨.refl d, fun _ _ => rfl⟩

theorem Erased.exists_goal (h : d.Erased cwd p d') :
    ∃ tree, (d.wayTo cwd false p).goal = some tree ∧
      ∀ q, d'.kindAt q = if tree <+: q then none else d.kindAt q := by
  obtain ⟨place, n, hl, hne, rfl⟩ := h
  obtain ⟨-, hgoal, -, -⟩ := locate_eq_ok_iff.mp hl
  exact ⟨place, hgoal, fun q => by rw [kindAt_tick, kindAt_erase hne]⟩

theorem Erased.pruned (h : d.Erased cwd p d') : d.Pruned cwd p d' := by
  refine ⟨h.within, fun place houtside => ?_⟩
  obtain ⟨tree, hgoal, hkinds⟩ := h.exists_goal
  rw [hkinds, if_neg (houtside tree hgoal)]

theorem Emptied.pruned (h : d.Emptied cwd p d') : d.Pruned cwd p d' := by
  refine ⟨h.within, fun place houtside => ?_⟩
  obtain ⟨tree, n, hl, hdir, rfl⟩ := h
  obtain ⟨-, hgoal, hn, -⟩ := locate_eq_ok_iff.mp hl
  exact kindAt_clear_of_outside (dirAt_iff.mpr ⟨n, hn, hdir⟩) (.inl (houtside tree hgoal))

/-- Where a path leads by, all is as before if the path avoids the tree. -/
theorem Avoids.kindAt_of_pruned (ha : d.Avoids cwd p q) (h : d.Pruned cwd q d') (final : Bool) :
    ∀ place ∈ d.trail cwd final p, d'.kindAt place = d.kindAt place :=
  fun place hplace => h.outside place fun tree htree => ha final false tree htree place hplace

/-- A path that avoids a tree leads where it did. -/
theorem Avoids.wayTo_of_pruned (ha : d.Avoids cwd p q) (h : d.Pruned cwd q d') (final : Bool) :
    d'.wayTo cwd final p = d.wayTo cwd final p :=
  route_eq_of_alike fun place hplace =>
    .inl (.inl (ha.kindAt_of_pruned h final place (mem_trail_of_met hplace)))

theorem Avoids.locate_of_pruned (ha : d.Avoids cwd p q) (h : d.Pruned cwd q d') {final : Bool}
    {place : List Name} {n : Node} (hl : d.locate cwd p final = .ok (place, n)) :
    ∃ m, d'.locate cwd p final = .ok (place, m) ∧ m.kind = n.kind := by
  have hsame := ha.kindAt_of_pruned h final
  have hway := ha.wayTo_of_pruned h final
  obtain ⟨hfol, hgoal, hget, hmet⟩ := locate_eq_ok_iff.mp hl
  have hplace : place ∈ d.trail cwd final p := mem_trail_of_goal hgoal
  obtain ⟨m, hm, hk⟩ := kindAt_eq_some_iff.mp ((hsame place hplace).trans (kindAt_of_get? hget))
  obtain ⟨l, hstart⟩ := hfol.start
  refine ⟨m, locate_eq_ok_iff.mpr ⟨⟨hfol.noNul, hfol.notEmpty, l, ?_⟩, hway ▸ hgoal, hm,
    fun place' hplace' => ?_⟩, hk⟩
  · rw [hsame _ (List.mem_cons_self ..), hstart]
  · rw [hway] at hplace'
    rw [hsame place' (mem_trail_of_met hplace')]
    exact hmet place' hplace'

/-- Nothing below the end of one path is in the tree of another, if each avoids the other. -/
theorem Avoids.not_prefix_append (ha : d.Avoids cwd p q) (hb : d.Avoids cwd q p)
    {final final' : Bool} {place tree : List Name} (hplace : place ∈ (d.wayTo cwd final p).goal)
    (htree : tree ∈ (d.wayTo cwd final' q).goal) (r : List Name) : ¬ tree <+: place ++ r := by
  intro hpre
  rcases List.prefix_or_prefix_of_prefix hpre (List.prefix_append place r) with hin | hin
  · exact ha final final' tree htree place (mem_trail_of_goal hplace) hin
  · exact hb final' final place hplace tree (mem_trail_of_goal htree) hin

/-- **What is reached from a path is reached still** after something was removed from a tree of its
own. -/
theorem Reaches.of_pruned {rel : List Name} {n : Node} (ha : d.Avoids cwd p q)
    (hb : d.Avoids cwd q p) (h : d.Pruned cwd q d') (hr : d.Reaches cwd p rel n) :
    ∃ m, d'.Reaches cwd p rel m ∧ m.kind = n.kind := by
  obtain ⟨place, top, hl, hholds, -⟩ := hr.exists_place
  obtain ⟨top', hl', hk⟩ := ha.locate_of_pruned h hl
  obtain ⟨-, hgoal, hget, -⟩ := locate_eq_ok_iff.mp hl
  obtain ⟨-, -, hget', -⟩ := locate_eq_ok_iff.mp hl'
  have hbelow : ∀ r, d'.kindAt (place ++ r) = d.kindAt (place ++ r) := fun r =>
    h.outside _ fun tree htree => ha.not_prefix_append hb hgoal htree r
  obtain ⟨m, hm, hmk⟩ := exists_holds_of_kindAt hholds (fun r _ => (hbelow r).symm) hget hget' hk
  exact ⟨m, ⟨top', stat_eq_ok_iff.mpr ⟨place, hl'⟩, hm⟩, hmk⟩

/-! ### After a tree is gone -/

theorem Settled.wayTo_of_erased (hs : d.Settled cwd p) (h : d.Erased cwd p d') (final : Bool) :
    d'.wayTo cwd final p = d.wayTo cwd false p := by
  obtain ⟨tree, hgoal, hkinds⟩ := h.exists_goal
  exact route_of_erased hgoal (hs.turns tree hgoal) hkinds

/-- A settled path leads nowhere after its tree was removed. -/
theorem Settled.kindAt_goal_of_erased (hs : d.Settled cwd p) (h : d.Erased cwd p d')
    {final : Bool} : ∀ tree ∈ (d'.wayTo cwd final p).goal, d'.kindAt tree = none := by
  intro tree htree
  rw [hs.wayTo_of_erased h] at htree
  obtain ⟨tree', hgoal, hkinds⟩ := h.exists_goal
  rw [hgoal, Option.mem_def, Option.some.injEq] at htree
  rw [hkinds, htree, if_pos (List.prefix_refl _)]

theorem pathExists_eq_false_of_goal
    (h : ∀ tree ∈ (d.wayTo cwd true p).goal, d.kindAt tree = none) :
    d.pathExists cwd p = false := by
  rw [Bool.eq_false_iff]
  intro he
  obtain ⟨n, hn⟩ := pathExists_iff.mp he
  obtain ⟨place, hl⟩ := stat_eq_ok_iff.mp hn
  obtain ⟨-, hgoal, hget, -⟩ := locate_eq_ok_iff.mp hl
  have hnone := h place hgoal
  simp [kindAt_of_get? hget] at hnone

theorem Settled.kindAt_goal (hs : d.Settled cwd p) (h : d.pathExists cwd p = false) :
    ∀ tree ∈ (d.wayTo cwd true p).goal, d.kindAt tree = none := by
  intro tree htree
  by_contra hne
  simpa [h] using hs.leads tree htree hne

theorem Settled.of_pruned_other (hs : d.Settled cwd p) (ha : d.Avoids cwd p q)
    (h : d.Pruned cwd q d') : d'.Settled cwd p := by
  have hway := ha.wayTo_of_pruned h
  refine ⟨?_, ?_⟩
  · rw [hway false]
    exact hs.turns
  · -- what stands at the end of the way stood there before, and was led to
    rw [hway true]
    intro tree htree hne
    have htrail : tree ∈ d.trail cwd true p := mem_trail_of_goal htree
    have hexists := hs.leads tree htree (ha.kindAt_of_pruned h true tree htrail ▸ hne)
    obtain ⟨n, hn⟩ := pathExists_iff.mp hexists
    obtain ⟨place, hl⟩ := stat_eq_ok_iff.mp hn
    obtain ⟨m, hm, -⟩ := ha.locate_of_pruned h hl
    exact pathExists_iff.mpr ⟨m, stat_eq_ok_iff.mpr ⟨place, hm⟩⟩

theorem Settled.of_erased (hs : d.Settled cwd p) (h : d.Erased cwd p d') : d'.Settled cwd p := by
  refine ⟨?_, fun tree htree hne => absurd (hs.kindAt_goal_of_erased h tree htree) hne⟩
  rw [hs.wayTo_of_erased h]
  exact hs.turns

/-- **Two paths still lead to trees of their own** after one of the trees was removed. -/
theorem Separate.of_erased (hsep : d.Separate cwd p q) (h : d.Erased cwd p d') :
    d'.Separate cwd p q := by
  have hp := hsep.left_settled.wayTo_of_erased h
  have hq := hsep.right_avoids.wayTo_of_pruned h.pruned
  refine ⟨fun final final' => ?_, fun final final' => ?_, hsep.left_settled.of_erased h,
    hsep.right_settled.of_pruned_other hsep.right_avoids h.pruned⟩
  · rw [hq final', trail, hp final]
    exact hsep.left_avoids false final'
  · rw [hp final', trail, hq final]
    exact hsep.right_avoids final false

/-- A path of a pair was made to lead nowhere, or led nowhere already. -/
def Freed (d : Disk) (cwd : List Name) (p : Path) (d' : Disk) : Prop :=
  d' = d ∧ d.pathExists cwd p = false ∨ d.Erased cwd p d'

theorem Freed.pruned (h : d.Freed cwd p d') : d.Pruned cwd p d' := by
  rcases h with ⟨rfl, -⟩ | h
  · exact .refl d' cwd p
  · exact h.pruned

theorem Separate.of_freed (hsep : d.Separate cwd p q) (h : d.Freed cwd p d') :
    d'.Separate cwd p q ∧ d'.pathExists cwd p = false := by
  rcases h with ⟨rfl, hmissing⟩ | h
  · exact ⟨hsep, hmissing⟩
  · exact ⟨hsep.of_erased h,
      pathExists_eq_false_of_goal (hsep.left_settled.kindAt_goal_of_erased h)⟩

theorem pathExists_eq_false_of_within (h : d'.Within d) (hmissing : d.pathExists cwd p = false) :
    d'.pathExists cwd p = false := by
  rw [Bool.eq_false_iff] at hmissing ⊢
  exact fun he => hmissing (pathExists_of_within h he)

end

end SuiteGate.Disk
