import SuiteGate.Config.Basic
/-!
# Which configurations are accepted

A configuration is accepted exactly if it has all that its users rely on (`Config.IsAcceptable`,
`Config.validate_eq_ok_iff`): programs with names, a period to wait, extensions that look like some,
and native projects or archives whose names can be told apart in a list.  Where the configuration is
rooted does not matter (`Config.fault?_rootedAt`).
-/

namespace SuiteGate.Config

/-- What is asked of a configuration. -/
structure IsAcceptable (c : Config) : Prop where
  name : c.suite.name ≠ ""
  mx : c.suite.mx ≠ ""
  git : c.suite.git ≠ ""
  quietPeriod : 0 < c.watch.quietPeriodMillis
  extensions : ∀ e ∈ c.watch.triggerExtensions, ∃ x rest, e.toList = '.' :: x :: rest
  dependencies : c.native.dependencies ≠ []
  commas : ∀ name ∈ c.native.dependencies, ',' ∉ name.toList

theorem isExtension_iff {e : String} :
    isExtension e = true ↔ ∃ x rest, e.toList = '.' :: x :: rest := by
  rw [isExtension, ← String.length_toList]
  cases e.toList with
  | nil => simp
  | cons x rest => cases rest <;> simp

theorem badExtension?_eq_none_iff {extensions : List String} :
    badExtension? extensions = none ↔
      ∀ e ∈ extensions, ∃ x rest, e.toList = '.' :: x :: rest := by
  simp [badExtension?, List.findIdx?_eq_none_iff, isExtension_iff]

theorem ite_some_eq_none_iff {α : Type} {p : Prop} [Decidable p] {a : α} {x : Option α} :
    (if p then some a else x) = none ↔ ¬ p ∧ x = none := by
  by_cases h : p
  · simp [h]
  · simp [h]

/-- **Nothing is wrong** with exactly the acceptable configurations. -/
theorem fault?_eq_none_iff {c : Config} : c.fault? = none ↔ c.IsAcceptable := by
  have hnative : (if c.native.dependencies.isEmpty then
        some (.invalidValue "native" "at least one native project or archive is required")
      else if c.native.dependencies.any (·.toList.contains ',') then
        some (.invalidValue "native" "dependency names cannot contain commas")
      else none : Option ConfigError) = none ↔
        c.native.dependencies ≠ [] ∧ ∀ name ∈ c.native.dependencies, ',' ∉ name.toList := by
    simp [ite_some_eq_none_iff]
  have hextensions := @badExtension?_eq_none_iff c.watch.triggerExtensions
  rw [fault?]
  simp only [ite_some_eq_none_iff, String.isEmpty_iff]
  cases hbad : badExtension? c.watch.triggerExtensions with
  | some i =>
    rw [hbad] at hextensions
    exact ⟨fun h => absurd h.2.2.2.2 (by simp),
      fun h => absurd (hextensions.mpr h.extensions) (by simp)⟩
  | none =>
    have hall := hextensions.mp hbad
    exact ⟨fun ⟨hname, hmx, hgit, hquiet, h⟩ => ⟨hname, hmx, hgit, Nat.pos_of_ne_zero hquiet, hall,
        (hnative.mp h).1, (hnative.mp h).2⟩,
      fun h => ⟨h.name, h.mx, h.git, Nat.ne_of_gt h.quietPeriod,
        hnative.mpr ⟨h.dependencies, h.commas⟩⟩⟩

theorem validate_eq_ok_iff {c : Config} : c.validate = .ok () ↔ c.IsAcceptable := by
  rw [← fault?_eq_none_iff, validate]
  cases c.fault? with
  | none => simp
  | some e => simp

theorem fault?_rootedAt (c : Config) (base : Path) : (c.rootedAt base).fault? = c.fault? := by
  rw [rootedAt]
  split
  · rfl
  · rfl

end SuiteGate.Config
