import Mathlib.Data.List.Basic
import Mathlib.Data.List.TakeWhile
import SuiteGate.Environment
/-!
# Entries

A program is handed its environment as texts, a name, `=` and a value each, and reads the names in
them anew.  A name that is not empty and holds no `=` behind its first character is read as it was
written (`Environment.readVariable?_append`), so an environment with such names only is handed on as
it is (`Environment.handed_eq_toList`), and one that a program has read has no others
(`Environment.isRead_received`).  Any other name loses its end to the value: an entry made of the
name `CC=gcc` and the value `x` gives the variable `CC`.
-/

namespace SuiteGate.Environment

theorem isName_iff {key : String} :
    IsName key ↔ ∃ c rest, key.toList = c :: rest ∧ '=' ∉ rest := by
  rw [IsName]
  cases key.toList with
  | nil => simp
  | cons c rest =>
    refine ⟨fun h => ⟨c, rest, rfl, h.2⟩, fun ⟨_, _, heq, h⟩ => ⟨List.cons_ne_nil _ _, ?_⟩⟩
    rwa [List.tail_cons, (List.cons.inj heq).2]

/-- **A name is read as it was written.** -/
theorem readVariable?_append {key : String} (h : IsName key) (value : String) :
    readVariable? (key ++ "=" ++ value) = some (key, value) := by
  obtain ⟨c, rest, hkey, hrest⟩ := isName_iff.mp h
  have hall : ∀ x ∈ rest, decide (x ≠ '=') = true := fun x hx =>
    decide_eq_true fun heq => hrest (heq ▸ hx)
  have hentry : (key ++ "=" ++ value).toList = c :: (rest ++ '=' :: value.toList) := by
    simp [String.toList_append, hkey]
  have hdrop : (rest ++ '=' :: value.toList).dropWhile (· ≠ '=') = '=' :: value.toList := by
    rw [List.dropWhile_append_of_pos hall, List.dropWhile_cons_of_neg (by decide)]
  have htake : (rest ++ '=' :: value.toList).takeWhile (· ≠ '=') = rest := by
    rw [List.takeWhile_append_of_pos hall, List.takeWhile_cons_of_neg (by decide), List.append_nil]
  rw [readVariable?, hentry]
  simp only [hdrop, htake]
  rw [← hkey, String.ofList_toList, String.ofList_toList]

/-- A name that is read in an entry is read again as it stands there. -/
theorem isName_of_readVariable? {entry : String} {p : String × String}
    (h : readVariable? entry = some p) : IsName p.1 := by
  rw [readVariable?] at h
  split at h
  · cases h
  · next c rest _ =>
    split at h
    · cases h
    · cases h
      refine isName_iff.mpr ⟨c, rest.takeWhile (· ≠ '='), String.toList_ofList, fun hmem => ?_⟩
      exact absurd (List.mem_takeWhile_imp hmem) (by decide)

/-- **An environment that a program can have is handed on as it is.** -/
theorem handed_eq_toList {e : Environment} (h : e.IsRead) : e.handed = e.toList := by
  have hread : ∀ p ∈ e.toList, readVariable? (p.1 ++ "=" ++ p.2) = some p := fun p hp =>
    readVariable?_append (h p hp) p.2
  rw [handed, entries, List.filterMap_map]
  exact (List.filterMap_congr hread).trans List.filterMap_some

theorem mem_handed_iff {e : Environment} (h : e.IsRead) {key value : String} :
    (key, value) ∈ e.handed ↔ e[key]? = some value := by
  rw [handed_eq_toList h, Std.ExtTreeMap.mem_toList_iff_getElem?_eq_some]

theorem isRead_iff {e : Environment} :
    e.IsRead ↔ ∀ key value, e[key]? = some value → IsName key := by
  refine ⟨fun h key value hkey => h (key, value) ?_, fun h p hp => h p.1 p.2 ?_⟩
  · exact Std.ExtTreeMap.mem_toList_iff_getElem?_eq_some.2 hkey
  · exact Std.ExtTreeMap.mem_toList_iff_getElem?_eq_some.1 hp

/-- **Whatever environment a program is started in, the one that it has is made of names.** -/
theorem isRead_received (e : Environment) : e.received.IsRead := by
  intro p hp
  have hmem : p.1 ∈ e.received := by
    rw [Std.ExtTreeMap.mem_iff_isSome_getElem?,
      Std.ExtTreeMap.mem_toList_iff_getElem?_eq_some.1 hp]
    rfl
  rw [received, Std.ExtTreeMap.mem_ofList, List.contains_iff_mem, List.mem_map] at hmem
  obtain ⟨q, hq, hname⟩ := hmem
  obtain ⟨entry, -, hentry⟩ := List.mem_filterMap.mp hq
  exact hname ▸ isName_of_readVariable? hentry

end SuiteGate.Environment
