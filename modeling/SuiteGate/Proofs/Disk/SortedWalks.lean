import SuiteGate.Proofs.Disk.Listings
import SuiteGate.Proofs.Disk.Walks
import SuiteGate.Proofs.Text.ByteOrder
/-!
# The order of sorted walks

Names are compared byte by byte (`Name.IsBefore`), and the names that lead to two places are
compared one after the other; where one place lies below the other, it comes later (`Precedes`).
The headline is `Disk.pairwise_sortedWalk`: what a sorted walk comes by is in this order.  It does
so because a directory comes before its entries, and all that is below one of the entries before all
that is below the next.
-/

namespace SuiteGate

namespace Name

/-- The bytes of a name. -/
def bytes (x : Name) : List UInt8 :=
  x.text.toUTF8.data.toList

/-- One name comes before another, byte by byte. -/
def IsBefore (x y : Name) : Prop :=
  List.Lex (· < ·) x.bytes y.bytes

theorem isBefore_iff {x y : Name} : x.IsBefore y ↔ x.text < y.text :=
  Text.lt_iff_lex_bytes.symm

instance : Std.Asymm IsBefore :=
  ⟨fun _ _ h h' => String.lt_asymm (isBefore_iff.mp h) (isBefore_iff.mp h')⟩

end Name

/-- Some names come before others: the first name in which they differ does, or the others go on
where the names end. -/
def Precedes (names others : List Name) : Prop :=
  List.Lex Name.IsBefore names others

theorem precedes_of_below (names : List Name) (x : Name) (rel : List Name) :
    Precedes names (names ++ x :: rel) := by
  have hnil : Precedes (names ++ []) (names ++ x :: rel) := List.Lex.append_left _ .nil names
  rwa [List.append_nil] at hnil

theorem precedes_of_isBefore {x y : Name} (h : x.IsBefore y) (names rel rel' : List Name) :
    Precedes (names ++ x :: rel) (names ++ y :: rel') :=
  List.Lex.append_left _ (.rel h) names

theorem Precedes.asymm {names others : List Name} (h : Precedes names others) :
    ¬ Precedes others names :=
  Std.Asymm.asymm (r := List.Lex Name.IsBefore) _ _ h

/-- Of two things that a walk lists, the names that lead to the first come before those that lead to
the second, unless one of them is a fault. -/
def Walk.InOrder (i j : Except WalkFault WalkItem) : Prop :=
  ∀ a b, i = .ok a → j = .ok b → Precedes a.below b.below

namespace Node

section

variable {path : Path} {names : List Name} {item : WalkItem}

theorem distinct_of_mem {es : List (Name × Node)} (h : DistinctEntries es) {e : Name × Node}
    (he : e ∈ es) : e.2.Distinct := by
  induction es with
  | nil => simp at he
  | cons e' es ih =>
    obtain ⟨-, hfirst, hrest⟩ := h
    rcases List.mem_cons.mp he with rfl | he
    · exact hfirst
    · exact ih hrest he

/-- Whatever a sorted walk comes by lies at or below the place where it starts. -/
theorem exists_below_of_mem_sortedWalk {n : Node} (hn : n.Distinct)
    (h : .ok item ∈ n.sortedWalk path names) : ∃ rel, item.below = names ++ rel := by
  obtain ⟨rel, m, -, hitem⟩ := (mem_walk_iff n hn).mp ((mem_sortedWalk_iff n).mp h)
  exact ⟨rel, by rw [ok_mem_itemsAt.mp hitem]⟩

theorem entryWalks_eq_map (path : Path) (names : List Name) (es : List (Name × Node)) :
    entryWalks path names es =
      es.map fun e => (e.1, e.2.sortedWalk (path.child e.1.text) (names ++ [e.1])) := by
  induction es with
  | nil => rfl
  | cons e es ih => rw [entryWalks, ih, List.map_cons]

/-- What the walk of an entry comes by is reached over the name of the entry. -/
theorem exists_below_of_mem_entryWalks {es : List (Name × Node)} (h : DistinctEntries es)
    {e : Name × Walk} (he : e ∈ entryWalks path names es) (hitem : .ok item ∈ e.2) :
    ∃ rel, item.below = names ++ e.1 :: rel := by
  rw [entryWalks_eq_map] at he
  obtain ⟨e', he', rfl⟩ := List.mem_map.mp he
  obtain ⟨rel, hrel⟩ := exists_below_of_mem_sortedWalk (distinct_of_mem h he') hitem
  exact ⟨rel, by rw [hrel, List.append_assoc, List.singleton_append]⟩

theorem map_fst_entryWalks (path : Path) (names : List Name) (es : List (Name × Node)) :
    (entryWalks path names es).map (·.1) = es.map (·.1) := by
  rw [entryWalks_eq_map, List.map_map]
  rfl

/-- **The entries of a directory** are walked in the order of their names. -/
theorem pairwise_isBefore_mergeSort {es : List (Name × Node)} (h : DistinctEntries es) :
    ((entryWalks path names es).mergeSort fun a b => nameLe a.1 b.1).Pairwise
      fun a b => a.1.IsBefore b.1 := by
  have hnames : ((entryWalks path names es).mergeSort fun a b => nameLe a.1 b.1).map (·.1) =
      (es.map (·.1)).mergeSort nameLe := by
    rw [← map_fst_entryWalks path names es]
    exact List.map_mergeSort fun a _ b _ => rfl
  have hsorted := pairwise_lt_mergeSort (nodup_of_distinctEntries h)
  rw [← hnames, List.pairwise_map] at hsorted
  exact hsorted.imp Name.isBefore_iff.mpr

end

mutual

/-- **A sorted walk is in order.** -/
theorem pairwise_sortedWalk {path : Path} {names : List Name} :
    (n : Node) → n.Distinct → (n.sortedWalk path names).Pairwise Walk.InOrder
  | .file data, _ => by
    rw [sortedWalk]
    exact List.pairwise_singleton _ _
  | .link target, _ => by
    rw [sortedWalk]
    exact List.pairwise_singleton _ _
  | .dir ⟨false, w⟩ es, _ => by
    rw [sortedWalk]
    refine List.pairwise_pair.mpr fun a b _ hb => ?_
    cases hb
  | .dir ⟨true, w⟩ es, h => by
    rw [sortedWalk, List.pairwise_cons, List.pairwise_flatMap]
    refine ⟨fun i hi a b ha hb => ?_, fun e he => ?_, ?_⟩
    · -- the directory comes before what is below it
      obtain rfl := Except.ok.inj ha
      subst hb
      obtain ⟨e, he, hitem⟩ := List.mem_flatMap.mp hi
      obtain ⟨rel, hrel⟩ := exists_below_of_mem_entryWalks h (List.mem_mergeSort.mp he) hitem
      rw [hrel]
      exact precedes_of_below names e.1 rel
    · exact pairwise_entryWalks es h e (List.mem_mergeSort.mp he)
    · refine (pairwise_isBefore_mergeSort h).imp_of_mem fun {e e'} he he' hbefore i hi j hj => ?_
      rintro a b rfl rfl
      obtain ⟨rel, hrel⟩ := exists_below_of_mem_entryWalks h (List.mem_mergeSort.mp he) hi
      obtain ⟨rel', hrel'⟩ := exists_below_of_mem_entryWalks h (List.mem_mergeSort.mp he') hj
      rw [hrel, hrel']
      exact precedes_of_isBefore hbefore names rel rel'

theorem pairwise_entryWalks {path : Path} {names : List Name} :
    (es : List (Name × Node)) → DistinctEntries es →
      ∀ e ∈ entryWalks path names es, e.2.Pairwise Walk.InOrder
  | [], _, _, he => by
    rw [entryWalks] at he
    exact absurd he List.not_mem_nil
  | (x, c) :: es, h, e, he => by
    obtain ⟨-, hc, hes⟩ := h
    rw [entryWalks] at he
    rcases List.mem_cons.mp he with rfl | he
    · exact pairwise_sortedWalk c hc
    · exact pairwise_entryWalks es hes e he

end

/-- A sorted walk of a directory starts with it. -/
theorem exists_sortedWalk_eq_cons (path : Path) (l : Access) (es : List (Name × Node)) :
    ∃ rest, (dir l es).sortedWalk path [] = .ok ⟨path, [], .dir l es⟩ :: rest := by
  rcases l with ⟨- | -, w⟩ <;> exact ⟨_, by rw [sortedWalk]⟩

end Node

namespace Disk

variable {d : Disk} {cwd : List Name} {p : Path}

/-- **What a sorted walk comes by** is in the order of the names that lead to it. -/
theorem pairwise_sortedWalk : (d.sortedWalk cwd p).Pairwise Walk.InOrder := by
  rw [sortedWalk, walkWith]
  split
  · exact List.pairwise_singleton _ _
  · split
    · exact List.pairwise_singleton _ _
    · next l es hs =>
      -- the link takes the place of the directory that it leads to
      obtain ⟨rest, hrest⟩ := Node.exists_sortedWalk_eq_cons p l es
      have hwalk : ((Node.dir l es).sortedWalk p []).Pairwise Walk.InOrder :=
        Node.pairwise_sortedWalk _ (distinct_of_stat hs)
      rw [hrest] at hwalk ⊢
      obtain ⟨hstart, hbelow⟩ := List.pairwise_cons.mp hwalk
      refine List.pairwise_cons.mpr ⟨fun i hi a b ha hb => ?_, hbelow⟩
      obtain rfl := Except.ok.inj ha
      exact hstart i hi ⟨p, [], .dir l es⟩ b rfl hb
    · exact List.pairwise_singleton _ _
  · next hl =>
    obtain ⟨place, hloc⟩ := lstat_eq_ok_iff.mp hl
    obtain ⟨-, -, hget, -⟩ := locate_eq_ok_iff.mp hloc
    exact Node.pairwise_sortedWalk _ (Node.distinct_of_get? d.distinct hget)

theorem pairwise_items_sortedWalk :
    (d.sortedWalk cwd p).items.Pairwise fun a b => Precedes a.below b.below := by
  rw [Walk.items, List.pairwise_filterMap]
  refine pairwise_sortedWalk.imp fun {i j} hij a ha b hb => ?_
  cases i <;> cases ha
  cases j <;> cases hb
  exact hij _ _ rfl rfl

end Disk

end SuiteGate
