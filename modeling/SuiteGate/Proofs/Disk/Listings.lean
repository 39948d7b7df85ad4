import SuiteGate.Disk.Walk
import SuiteGate.Proofs.Disk.Lookups
/-!
# The names in a directory

What is listed in the order of names does not depend on the order in which a directory has its
entries: the names of what stands directly below a place (`Disk.namesAt`) are all of them
(`mem_namesAt_iff`), strictly one after the other (`pairwise_namesAt`).  What is found first on a
list in some order is the least of what could be found (`find?_eq_some_iff_of_pairwise`).
-/

namespace SuiteGate

/-- **The first element with a property,** of those that come in an order, is the least of them. -/
theorem find?_eq_some_iff_of_pairwise {α : Type} {R : α → α → Prop} {p : α → Bool} {l : List α}
    (hR : ∀ a b, R a b → ¬ R b a) (hl : l.Pairwise R) {a : α} :
    l.find? p = some a ↔ a ∈ l ∧ p a = true ∧ ∀ b ∈ l, p b = true → a = b ∨ R a b := by
  induction l with
  | nil => simp
  | cons c l ih =>
    obtain ⟨hc, hl⟩ := List.pairwise_cons.mp hl
    cases hpc : p c with
    | true =>
      rw [List.find?_cons_of_pos hpc, Option.some.injEq]
      constructor
      · rintro rfl
        refine ⟨List.mem_cons_self .., hpc, fun b hb _ => ?_⟩
        rcases List.mem_cons.mp hb with rfl | hb
        · exact .inl rfl
        · exact .inr (hc b hb)
      · rintro ⟨ha, -, hleast⟩
        rcases hleast c (List.mem_cons_self ..) hpc with rfl | hac
        · rfl
        · rcases List.mem_cons.mp ha with rfl | ha
          · rfl
          · exact absurd (hc a ha) (hR a c hac)
    | false =>
      rw [List.find?_cons_of_neg (by simp [hpc]), ih hl]
      constructor
      · rintro ⟨ha, hpa, hleast⟩
        refine ⟨List.mem_cons_of_mem c ha, hpa, fun b hb hpb => ?_⟩
        rcases List.mem_cons.mp hb with rfl | hb
        · simp [hpc] at hpb
        · exact hleast b hb hpb
      · rintro ⟨ha, hpa, hleast⟩
        rcases List.mem_cons.mp ha with rfl | ha
        · simp [hpc] at hpa
        · exact ⟨ha, hpa, fun b hb => hleast b (List.mem_cons_of_mem c hb)⟩

namespace Node

theorem nameLe_trans (x y z : Name) (hxy : nameLe x y = true) (hyz : nameLe y z = true) :
    nameLe x z = true := by
  simp only [nameLe, decide_eq_true_eq] at hxy hyz ⊢
  exact String.le_trans hxy hyz

theorem nameLe_total (x y : Name) : (nameLe x y || nameLe y x) = true := by
  simp only [nameLe, Bool.or_eq_true, decide_eq_true_eq]
  exact String.le_total x.text y.text

/-- **Sorted names without repetition** come strictly one after the other. -/
theorem pairwise_lt_mergeSort {names : List Name} (h : names.Nodup) :
    (names.mergeSort nameLe).Pairwise fun x y => x.text < y.text := by
  have hle : (names.mergeSort nameLe).Pairwise fun x y => nameLe x y = true :=
    @List.pairwise_mergeSort Name nameLe nameLe_trans nameLe_total names
  have hne : (names.mergeSort nameLe).Pairwise (· ≠ ·) :=
    (List.mergeSort_perm names _).nodup_iff.mpr h
  refine (hle.and hne).imp fun {x y} hxy => ?_
  obtain ⟨hxy, hne⟩ := hxy
  simp only [nameLe, decide_eq_true_eq] at hxy
  exact String.not_le.mp fun hyx => hne (Name.text_inj.mp (String.le_antisymm hxy hyx))

/-- The names of entries are those that stand for something. -/
theorem mem_map_fst_iff {es : List (Name × Node)} {x : Name} :
    x ∈ es.map (·.1) ↔ es.lookup x ≠ none := by
  refine ⟨fun h hnone => ?_, fun h => by_contra fun hx => h (lookup_eq_none_of_not_mem hx)⟩
  obtain ⟨p, hp, rfl⟩ := List.mem_map.mp h
  simpa using List.lookup_eq_none_iff.mp hnone p hp

end Node

namespace Disk

variable {d : Disk} {place : List Name}

/-- The names of what stands directly below a place, in their order. -/
def namesAt (d : Disk) (place : List Name) : List Name :=
  (((d.get? place).elim [] Node.entries).map (·.1)).mergeSort Node.nameLe

/-- **The names below a place** are those of all that stands there. -/
theorem mem_namesAt_iff {x : Name} : x ∈ d.namesAt place ↔ d.get? (place ++ [x]) ≠ none := by
  have hget : d.get? (place ++ [x]) = ((d.get? place).elim [] Node.entries).lookup x := by
    rw [get?, Node.get?_append, ← get?]
    cases d.get? place with
    | none => rfl
    | some n =>
      rw [Option.bind_some, Node.get?_cons, Option.elim_some]
      simp [Node.get?_nil]
  rw [namesAt, List.mem_mergeSort, Node.mem_map_fst_iff, hget]

theorem pairwise_namesAt : (d.namesAt place).Pairwise fun x y => x.text < y.text := by
  refine Node.pairwise_lt_mergeSort ?_
  cases h : d.get? place with
  | none => exact .nil
  | some n =>
    have hn : n.Distinct := Node.distinct_of_get? d.distinct h
    cases n with
    | dir l es => exact Node.nodup_of_distinctEntries hn
    | file data => exact .nil
    | link target => exact .nil

/-- Names that come in order are those below a place if its entries have just these. -/
theorem namesAt_eq_of_perm {names : List Name}
    (hperm : (((d.get? place).elim [] Node.entries).map (·.1)).Perm names)
    (hnames : names.Pairwise fun x y => x.text < y.text) : d.namesAt place = names := by
  refine List.Perm.eq_of_pairwise (fun x y _ _ hxy hyx => ?_) pairwise_namesAt hnames
    ((List.mergeSort_perm _ _).trans hperm)
  exact absurd hyx (String.lt_asymm hxy)

theorem nodup_namesAt : (d.namesAt place).Nodup :=
  pairwise_namesAt.imp fun {x y} h => by
    rintro rfl
    exact String.lt_irrefl x.text h

end Disk

end SuiteGate
