import SuiteGate.Proofs.Disk.Lookups
/-!
# Emptying directories

What becomes of a directory whose entries are taken out one by one (`Node.strip`).  What is left
stood there before (`within_clear`), and nothing is left exactly if every directory in it can be
listed and none that has entries keeps them (`Node.strip_fst_iff`).
-/

namespace SuiteGate

namespace Node

/-- A directory keeps its entries: they cannot be listed, or there are some and it is not
writable. -/
def Keeps : Node → Prop
  | .dir access es => access.listable = false ∨ access.writable = false ∧ es ≠ []
  | _ => False

instance : DecidablePred Keeps
  | .dir _ _ => inferInstanceAs (Decidable (_ ∨ _))
  | .file _ => inferInstanceAs (Decidable False)
  | .link _ => inferInstanceAs (Decidable False)

/-- An entry that is left stood there before, as it was or without some of what it held. -/
theorem exists_lookup_of_stripEntries {writable : Bool} {es : List (Name × Node)} {x : Name}
    {c : Node} (hes : DistinctEntries es)
    (h : (stripEntries writable es).2.lookup x = some c) :
    ∃ c', es.lookup x = some c' ∧ (c = c' ∨ c = c'.strip.2) := by
  induction es with
  | nil => cases h
  | cons p es ih =>
    obtain ⟨k, c₀⟩ := p
    obtain ⟨hk, -, hes⟩ := hes
    rw [stripEntries_cons] at h
    split at h
    · obtain ⟨c', hc', hleft⟩ := ih hes h
      have hne : x ≠ k := by
        rintro rfl
        rw [lookup_eq_none_of_not_mem hk] at hc'
        cases hc'
      exact ⟨c', by rw [lookup_cons_eq, if_neg hne, hc'], hleft⟩
    · rw [lookup_cons_eq] at h ⊢
      by_cases hx : x = k
      · rw [if_pos hx] at h ⊢
        exact ⟨c₀, rfl, .inr (Option.some.inj h).symm⟩
      · rw [if_neg hx] at h ⊢
        exact ⟨c, h, .inl rfl⟩

theorem kind_strip (n : Node) : n.strip.2.kind = n.kind := by
  cases n with
  | file data => rfl
  | link target => rfl
  | dir access es =>
    rw [strip_dir]
    split <;> rfl

/-- **What is left after entries were taken out** stood there before. -/
theorem exists_get?_of_strip {rel : List Name} : ∀ {n m : Node}, n.Distinct →
    n.strip.2.get? rel = some m → ∃ m', n.get? rel = some m' ∧ m'.kind = m.kind := by
  induction rel with
  | nil =>
    intro n m _ h
    rw [get?_nil, Option.some.injEq] at h
    exact ⟨n, get?_nil n, h ▸ (kind_strip n).symm⟩
  | cons x rel ih =>
    intro n m hn h
    cases n with
    | file data => cases h
    | link target => cases h
    | dir access es =>
      rw [strip_dir] at h
      split at h
      · rw [get?_cons, Option.bind_eq_some_iff] at h
        obtain ⟨c, hc, hm⟩ := h
        obtain ⟨c', hc', rfl | rfl⟩ := exists_lookup_of_stripEntries hn hc
        · exact ⟨m, by rw [get?_cons, entries, hc', Option.bind_some, hm], rfl⟩
        · obtain ⟨m', hm', hk⟩ := ih (distinct_of_lookup hn hc') hm
          exact ⟨m', by rw [get?_cons, entries, hc', Option.bind_some, hm'], hk⟩
      · exact ⟨m, h, rfl⟩

theorem stripEntries_snd_of_done {writable : Bool} {es : List (Name × Node)}
    (h : (stripEntries writable es).1 = true) : (stripEntries writable es).2 = [] := by
  induction es with
  | nil => rfl
  | cons p es ih =>
    obtain ⟨x, c⟩ := p
    rw [stripEntries_cons] at h ⊢
    split at h
    · next hgone => rw [if_pos hgone, ih h]
    · cases h

/-- Nothing is left in what could be emptied. -/
theorem entries_strip_of_done {n : Node} (h : n.strip.1 = true) : n.strip.2.entries = [] := by
  cases n with
  | file data => rfl
  | link target => rfl
  | dir access es =>
    rw [strip_dir] at h ⊢
    split at h
    · next hlist =>
      rw [if_pos hlist]
      exact stripEntries_snd_of_done h
    · cases h

/-- All entries go if each of them can be emptied and the directory, unless there are none, is
writable. -/
theorem stripEntries_fst_iff {writable : Bool} {es : List (Name × Node)} :
    (stripEntries writable es).1 = true ↔
      (∀ p ∈ es, p.2.strip.1 = true) ∧ (es = [] ∨ writable = true) := by
  induction es with
  | nil => simp [stripEntries]
  | cons p es ih =>
    obtain ⟨x, c⟩ := p
    rw [stripEntries_cons]
    cases hc : c.strip.1 with
    | false => simp [hc]
    | true =>
      cases writable with
      | false => simp
      | true => simpa [hc] using ih

theorem lookup_eq_some_iff_mem {es : List (Name × Node)} (hes : DistinctEntries es) {x : Name}
    {c : Node} : es.lookup x = some c ↔ (x, c) ∈ es := by
  induction es with
  | nil => simp
  | cons p es ih =>
    obtain ⟨k, c₀⟩ := p
    obtain ⟨hk, -, hes⟩ := hes
    rw [lookup_cons_eq, List.mem_cons, Prod.mk.injEq]
    by_cases hxk : x = k
    · have hnot : (x, c) ∉ es := fun hmem => hk (hxk ▸ List.mem_map_of_mem hmem)
      simp [hxk, hxk ▸ hnot, eq_comm]
    · simp [hxk, ih hes]

/-- What stands at and below a directory is the directory, and what its entries hold. -/
theorem forall_get?_dir_iff {access : Access} {es : List (Name × Node)} {P : Node → Prop}
    (hes : DistinctEntries es) :
    (∀ rel m, (Node.dir access es).get? rel = some m → P m) ↔
      P (.dir access es) ∧ ∀ p ∈ es, ∀ rel m, p.2.get? rel = some m → P m := by
  constructor
  · refine fun h => ⟨h [] _ (get?_nil _), fun p hp rel m hm => h (p.1 :: rel) m ?_⟩
    rw [get?_cons, entries, (lookup_eq_some_iff_mem hes).mpr hp, Option.bind_some, hm]
  · rintro ⟨hself, hentries⟩ rel m hm
    cases rel with
    | nil =>
      rw [get?_nil, Option.some.injEq] at hm
      exact hm ▸ hself
    | cons x rel =>
      rw [get?_cons, Option.bind_eq_some_iff] at hm
      obtain ⟨c, hc, hm⟩ := hm
      exact hentries (x, c) ((lookup_eq_some_iff_mem hes).mp hc) rel m hm

theorem forall_get?_leaf_iff {n : Node} {P : Node → Prop} (hn : n.isDir = false) :
    (∀ rel m, n.get? rel = some m → P m) ↔ P n := by
  refine ⟨fun h => h [] n (get?_nil n), fun h rel m hm => ?_⟩
  cases rel with
  | nil =>
    rw [get?_nil, Option.some.injEq] at hm
    exact hm ▸ h
  | cons x rel =>
    cases n with
    | dir access es => cases hn
    | file data | link target => cases hm

mutual

/-- **A directory can be emptied** exactly if no directory in it keeps its entries. -/
theorem strip_fst_iff : (n : Node) → n.Distinct →
    (n.strip.1 = true ↔ ∀ rel m, n.get? rel = some m → ¬ m.Keeps)
  | .file data, _ => by rw [forall_get?_leaf_iff rfl]; simp [strip, Keeps]
  | .link target, _ => by rw [forall_get?_leaf_iff rfl]; simp [strip, Keeps]
  | .dir access es, h => by
    rw [strip_dir, forall_get?_dir_iff h, ← forall_strip_fst_iff es h, Keeps]
    cases access.listable with
    | false => simp
    | true =>
      rw [if_pos rfl, stripEntries_fst_iff, and_comm]
      cases access.writable <;> simp

theorem forall_strip_fst_iff : (es : List (Name × Node)) → DistinctEntries es →
    ((∀ p ∈ es, p.2.strip.1 = true) ↔ ∀ p ∈ es, ∀ rel m, p.2.get? rel = some m → ¬ m.Keeps)
  | [], _ => by simp
  | (x, c) :: es, ⟨_, hc, hes⟩ => by
    rw [List.forall_mem_cons, List.forall_mem_cons, strip_fst_iff c hc,
      forall_strip_fst_iff es hes]

end

end Node

namespace Disk

variable {d : Disk} {place : List Name}

/-- What stands at and below a directory that was emptied as far as that can be done. -/
theorem get?_clear_append (h : d.DirAt place) (r : List Name) :
    (d.clear place).get? (place ++ r) =
      Node.find? ((d.get? place).map fun n => n.strip.2) r := by
  rcases List.eq_nil_or_concat' place with rfl | ⟨init, x, rfl⟩
  · -- the root is in no directory, so `get?_alter_append` does not apply
    obtain ⟨access, es, hr⟩ := Node.exists_eq_dir d.isDir_root
    have hget : d.get? [] = some d.root := Node.get?_nil _
    have hdir : (Node.dir access es).strip.2.isDir = true := by
      rw [Node.isDir_eq_of_kind_eq (Node.kind_strip _)]
      rfl
    rw [hget, hr, get?, clear, alter]
    simp only [hr, Node.alter, Option.map_some, Option.filter_some, hdir, if_true,
      Option.getD_some, List.nil_append]
    rfl
  · exact get?_alter_append init x h.dropLast_concat rfl r

/-- **Emptying a directory** leaves what is not below it as it is. -/
theorem kindAt_clear_of_outside (h : d.DirAt place) {q : List Name}
    (hq : ¬ place <+: q ∨ q = place) : (d.clear place).kindAt q = d.kindAt q := by
  rcases hq with hq | rfl
  · exact kindAt_alter hq
  · obtain ⟨n, hn, -⟩ := dirAt_iff.mp h
    have hget := get?_clear_append h []
    rw [List.append_nil, hn] at hget
    rw [kindAt, hget, kindAt_of_get? hn]
    simp [Node.find?, Node.get?_nil, Node.kind_strip]

/-- **Emptying a directory** makes nothing new. -/
theorem within_clear (h : d.DirAt place) : (d.clear place).Within d := by
  intro q hq
  by_cases hin : place <+: q
  · obtain ⟨r, rfl⟩ := hin
    obtain ⟨n, hn, -⟩ := dirAt_iff.mp h
    obtain ⟨m, hm⟩ := Option.ne_none_iff_exists'.mp (mt kindAt_eq_none_iff.mpr hq)
    have hleft : n.strip.2.get? r = some m := by
      have hget := get?_clear_append h r
      rwa [hm, hn, eq_comm] at hget
    obtain ⟨m', hm', hk⟩ := Node.exists_get?_of_strip (Node.distinct_of_get? d.distinct hn) hleft
    have hbefore : d.get? (place ++ r) = some m' := by rw [get?_append_of_get? hn, hm']
    rw [kindAt_of_get? hm, kindAt_of_get? hbefore, hk]
  · exact kindAt_clear_of_outside h (.inl hin)

/-- Nothing is left below a directory that can be emptied. -/
theorem kindAt_clear_below {n : Node} (hn : d.get? place = some n) (hdir : n.isDir = true)
    (hdone : n.strip.1 = true) {r : List Name} (hr : r ≠ []) :
    (d.clear place).kindAt (place ++ r) = none := by
  rw [kindAt_eq_none_iff, get?_clear_append (dirAt_iff.mpr ⟨n, hn, hdir⟩), hn]
  cases r with
  | nil => exact absurd rfl hr
  | cons x r =>
    simp [Node.find?, Node.get?_cons, Node.entries_strip_of_done hdone]

end Disk

end SuiteGate
