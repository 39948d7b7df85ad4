import Mathlib.Tactic.Common
import Mathlib.Tactic.TFAE
import SuiteGate.Environment
/-!
# Overrides, variable by variable

Overrides are told apart by what they make of each variable (`Overrides.ext_getElem?`): it is set,
or removed, or not mentioned.  Each way of building overrides has one look-up law.
-/

namespace SuiteGate.Overrides

@[simp]
theorem getElem?_empty (k : String) : empty.changes[k]? = none := by
  simp [empty]

@[simp]
theorem getElem?_set (o : Overrides) (key value k : String) :
    (o.set key value).changes[k]? = if key = k then some (.set value) else o.changes[k]? := by
  simp [set, Std.ExtTreeMap.getElem?_insert]

@[simp]
theorem getElem?_remove (o : Overrides) (key k : String) :
    (o.remove key).changes[k]? = if key = k then some .remove else o.changes[k]? := by
  simp [remove, Std.ExtTreeMap.getElem?_insert]

theorem ext_getElem? {o p : Overrides} (h : ∀ k : String, o.changes[k]? = p.changes[k]?) :
    o = p := by
  obtain ⟨changes⟩ := o
  obtain ⟨changes'⟩ := p
  exact congrArg Overrides.mk (Std.ExtTreeMap.ext_getElem? fun k => h k)

/-! ### Overrides as a monoid -/

theorem empty_extend (o : Overrides) : empty.extend o = o :=
  ext_getElem? fun k => by rw [getElem?_extend, getElem?_empty, Option.or_none]

theorem extend_empty (o : Overrides) : o.extend empty = o :=
  ext_getElem? fun k => by rw [getElem?_extend, getElem?_empty, Option.none_or]

theorem extend_assoc (a b c : Overrides) : (a.extend b).extend c = a.extend (b.extend c) :=
  ext_getElem? fun k => by simp only [getElem?_extend, Option.or_assoc]

theorem update_empty (e : Environment) : empty.update e = e :=
  Std.ExtTreeMap.ext_getElem? fun k => by rw [getElem?_update, getElem?_empty]

/-- **A variable has a value in overrides** exactly if they give it that value in every environment,
or only in every one that the system accepts. -/
theorem get?_tfae (o : Overrides) (k v : String) :
    List.TFAE [o.get? k = some v, ∀ e : Environment, (o.update e)[k]? = some v,
      ∀ e : Environment, e.IsValid → (o.update e)[k]? = some v] := by
  have hvalue : o.get? k = some v → ∀ e : Environment, (o.update e)[k]? = some v := by
    intro h e
    obtain ⟨c, hc, hv⟩ := Option.bind_eq_some_iff.mp h
    rw [getElem?_update, hc]
    exact hv
  have hfresh : (∀ e : Environment, e.IsValid → (o.update e)[k]? = some v) →
      o.get? k = some v := by
    intro h
    -- in the empty environment the value can only come from the overrides
    have hempty : (o.update ∅)[k]? = some v := h ∅ (by decide)
    rw [getElem?_update] at hempty
    rw [get?]
    cases hc : o.changes[k]? with
    | none => simp [hc] at hempty
    | some c => simpa [hc] using hempty
  tfae_have 1 → 2 := hvalue
  tfae_have 2 → 3 := fun h e _ => h e
  tfae_have 3 → 1 := hfresh
  tfae_finish

/-! ### Variables that are removed or set in a row -/

/-- Removing some variables, one after the other. -/
theorem getElem?_foldl_remove (keys : List String) (o : Overrides) (k : String) :
    (keys.foldl remove o).changes[k]? = if k ∈ keys then some .remove else o.changes[k]? := by
  induction keys generalizing o with
  | nil => simp
  | cons key keys ih =>
    rw [List.foldl_cons, ih, getElem?_remove]
    by_cases hk : key = k
    · simp [hk]
    · have hk' : ¬ k = key := fun h => hk h.symm
      simp [hk, hk']

theorem changes_foldl_set (l : List (String × String)) (o : Overrides) :
    (l.foldl (fun acc p => acc.set p.1 p.2) o).changes =
      (l.map fun p => (p.1, Change.set p.2)).foldl (fun acc p => acc.insert p.1 p.2) o.changes := by
  induction l generalizing o with
  | nil => rfl
  | cons p l ih => exact ih _

theorem lookup_map_set (l : List (String × String)) (k : String) :
    (l.map fun p => (p.1, Change.set p.2)).lookup k = (l.lookup k).map Change.set := by
  induction l with
  | nil => rfl
  | cons p l ih =>
    rw [List.map_cons, List.lookup_cons, List.lookup_cons, ih]
    split <;> rfl

/-- **Setting the variables of an environment.** -/
theorem getElem?_ofPairs (e : Environment) (k : String) :
    (ofPairs e.toList).changes[k]? = e[k]?.map .set := by
  rw [ofPairs, changes_foldl_set, getElem?_foldl_insert, ← List.map_reverse, lookup_map_set,
    NameMap.lookup_reverse_toList, getElem?_empty, Option.or_none]

end SuiteGate.Overrides
