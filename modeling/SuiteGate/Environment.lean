import Std.Data.ExtTreeMap
/-!
# Environments and overrides

An environment maps names of variables to values (`Environment`).  Overrides are requested changes
of it, at most one to a name (`Overrides`): a variable is set or removed.  `Overrides.update` is
the environment after all changes; `Overrides.apply` makes them one at a time, in the order of the
names, and stops at the first that the system refuses, a name that is empty or holds `=`, or a NUL
in name or value.  `Environment.restore` goes back to an earlier environment variable by variable,
and the system may refuse that, too, unless both environments hold only variables that it accepts
(`Environment.IsValid`).  A program is handed an environment as a list of texts and reads the names
in them anew (`Environment.handed`).  Headlines: `apply` makes exactly the changes of `update` if
none is refused (`apply_eq_update`), `extend` is the composition of updates (`update_extend`), and
nothing is left of what happened since an environment was recorded (`restore_eq`).
-/

namespace SuiteGate

/-- A finite map whose keys are texts. -/
abbrev NameMap (α : Type) := Std.ExtTreeMap String α

/-- An environment of a process. -/
abbrev Environment := NameMap String

/-- A requested change of one variable. -/
inductive Change where
  | set (value : String)
  | remove
deriving DecidableEq, Repr

namespace Change

/-- The value of a variable after a change, if it has one. -/
def value? : Change → Option String
  | set v => some v
  | remove => none

end Change

/-- Requested changes of an environment. -/
structure Overrides where
  changes : NameMap Change
deriving Inhabited

namespace Overrides

/-- No change. -/
def empty : Overrides := ⟨∅⟩

/-- The changes, and setting a variable. -/
def set (o : Overrides) (key value : String) : Overrides :=
  ⟨o.changes.insert key (.set value)⟩

/-- The changes, and removing a variable. -/
def remove (o : Overrides) (key : String) : Overrides :=
  ⟨o.changes.insert key .remove⟩

/-- The changes and those of another set, which win. -/
def extend (o other : Overrides) : Overrides :=
  ⟨other.changes.foldl (fun acc k c => acc.insert k c) o.changes⟩

/-- The changes that set variables to given values, the last mention of a variable winning. -/
def ofPairs (pairs : List (String × String)) : Overrides :=
  pairs.foldl (fun acc p => acc.set p.1 p.2) empty

/-- Whether there are no changes. -/
def isEmpty (o : Overrides) : Bool :=
  o.changes.isEmpty

/-- The changes in the order of their names. -/
def toList (o : Overrides) : List (String × Change) :=
  o.changes.toList

/-- The value that a variable is set to, if it is set. -/
def get? (o : Overrides) (key : String) : Option String :=
  o.changes[key]?.bind Change.value?

end Overrides

namespace Environment

/-- The environment after one change. -/
def change (e : Environment) (key : String) : Change → Environment
  | .set v => e.insert key v
  | .remove => e.erase key

/-- Whether the system accepts a name for a variable. -/
def validName (key : String) : Bool :=
  key != "" && !key.toList.contains '=' && !key.toList.contains '\x00'

/-- Whether the system accepts a value for a variable. -/
def validValue (value : String) : Bool :=
  !value.toList.contains '\x00'

/-- Whether the system accepts a change. -/
def accepts (key : String) : Change → Bool
  | .set v => validName key && validValue v
  | .remove => validName key

/-- Whether the system accepts every variable with its value. -/
def IsValid (e : Environment) : Prop :=
  ∀ p ∈ e.toList, accepts p.1 (.set p.2) = true

instance (e : Environment) : Decidable e.IsValid :=
  inferInstanceAs (Decidable (∀ p ∈ e.toList, _))

/-- The texts that stand for the variables when a program is started. -/
def entries (e : Environment) : List String :=
  e.toList.map fun p => p.1 ++ "=" ++ p.2

/-- The variable that a program reads in such a text, whose name ends before the first `=` behind
its first character.  A text without that is passed over. -/
def readVariable? (entry : String) : Option (String × String) :=
  match entry.toList with
  | [] => none
  | c :: rest =>
    match rest.dropWhile (· ≠ '=') with
    | [] => none
    | _ :: value => some (String.ofList (c :: rest.takeWhile (· ≠ '=')), String.ofList value)

/-- The variables that a program reads in the texts it is handed. -/
def handed (e : Environment) : List (String × String) :=
  e.entries.filterMap readVariable?

/-- The environment of a program that takes the last of several values of a variable. -/
def received (e : Environment) : Environment :=
  .ofList e.handed

/-- Whether a name is read as it was written. -/
def IsName (key : String) : Prop :=
  key.toList ≠ [] ∧ '=' ∉ key.toList.tail

instance : DecidablePred IsName := fun key =>
  inferInstanceAs (Decidable (key.toList ≠ [] ∧ '=' ∉ key.toList.tail))

/-- Whether the environment is one that a program can have, having read all names in it. -/
def IsRead (e : Environment) : Prop :=
  ∀ p ∈ e.toList, IsName p.1

instance (e : Environment) : Decidable e.IsRead :=
  inferInstanceAs (Decidable (∀ p ∈ e.toList, _))

/-- The changes that bring back an earlier environment: variables that were not there are removed,
and all others get their earlier values. -/
def restoration (snapshot current : Environment) : List (String × Change) :=
  ((current.keys.filter fun k => !snapshot.contains k).map fun k => (k, .remove))
    ++ snapshot.toList.map fun p => (p.1, .set p.2)

end Environment

namespace Overrides

/-- The environment after a list of changes. -/
def updateList (changes : List (String × Change)) (e : Environment) : Environment :=
  changes.foldl (fun acc p => acc.change p.1 p.2) e

/-- The environment after all changes. -/
def update (o : Overrides) (e : Environment) : Environment :=
  updateList o.toList e

/-- Makes changes one at a time and says whether all were accepted. -/
def applyList : List (String × Change) → Environment → Bool × Environment
  | [], e => (true, e)
  | (k, c) :: rest, e =>
    if Environment.accepts k c then applyList rest (e.change k c) else (false, e)

/-- Makes the changes in the order of their names, up to the first that is refused. -/
def apply (o : Overrides) (e : Environment) : Bool × Environment :=
  applyList o.toList e

end Overrides

/-- Brings back an earlier environment, up to the first change that is refused, and says whether
all were accepted. -/
def Environment.restore (snapshot current : Environment) : Bool × Environment :=
  Overrides.applyList (restoration snapshot current) current

/-! ### Look-ups -/

namespace NameMap

variable {α β : Type}

/-- A map has one entry for a key, so it does not matter where the search for it starts. -/
theorem lookup_reverse_toList (m : NameMap α) (k : String) :
    m.toList.reverse.lookup k = m[k]? := by
  have hmem : ∀ c, (k, c) ∈ m.toList.reverse ↔ m[k]? = some c := fun c =>
    List.mem_reverse.trans Std.ExtTreeMap.mem_toList_iff_getElem?_eq_some
  cases hr : m[k]? with
  | none =>
    rw [List.lookup_eq_none_iff]
    intro q hq
    have : q.1 ≠ k := by
      rintro rfl
      simp [(hmem q.2).1 hq] at hr
    simpa using fun e => this e.symm
  | some c =>
    have hdistinct : m.toList.reverse.Pairwise fun a b => a.1 ≠ b.1 :=
      List.pairwise_reverse.mpr <|
        Std.ExtTreeMap.distinct_keys_toList.imp fun hab e => hab (by simp [e])
    rw [List.lookup_eq_some_iff]
    obtain ⟨a, b, hab⟩ := List.append_of_mem ((hmem c).2 hr)
    refine ⟨a, b, hab, fun q hq => ?_⟩
    rw [hab, List.pairwise_append] at hdistinct
    have : q.1 ≠ k := hdistinct.2.2 q hq (k, c) (by simp)
    simpa using fun e => this e.symm

/-- **The last entry for a key decides** when entries are put into a map one after the other. -/
theorem getElem?_foldl {f : NameMap α → String → β → NameMap α} {value? : β → Option α}
    (hf : ∀ m key b k, (f m key b)[k]? = if key = k then value? b else m[k]?)
    (l : List (String × β)) (m : NameMap α) (k : String) :
    (l.foldl (fun m p => f m p.1 p.2) m)[k]? = (l.reverse.lookup k).elim m[k]? value? := by
  induction l generalizing m with
  | nil => rfl
  | cons p l ih =>
    obtain ⟨key, b⟩ := p
    rw [List.foldl_cons, ih, hf, List.reverse_cons, List.lookup_append]
    cases l.reverse.lookup k with
    | some b => rfl
    | none =>
      by_cases hk : key = k
      · subst hk
        simp
      · have hb : (k == key) = false := by simpa using fun e => hk e.symm
        simp [List.lookup_cons, hb, hk]

end NameMap

namespace Environment

theorem getElem?_change (e : Environment) (key k : String) (c : Change) :
    (e.change key c)[k]? = if key = k then c.value? else e[k]? := by
  cases c <;>
    simp [change, Change.value?, Std.ExtTreeMap.getElem?_insert, Std.ExtTreeMap.getElem?_erase]

end Environment

namespace Overrides

/-- Changes that are all accepted are all made. -/
theorem applyList_eq_updateList {l : List (String × Change)} (e : Environment)
    (h : ∀ p ∈ l, Environment.accepts p.1 p.2 = true) : applyList l e = (true, updateList l e) := by
  induction l generalizing e with
  | nil => rfl
  | cons p l ih =>
    obtain ⟨k, c⟩ := p
    have hk : Environment.accepts k c = true := h (k, c) (by simp)
    rw [applyList, if_pos hk]
    exact ih _ fun q hq => h q (List.mem_cons_of_mem _ hq)

/-- Changes are made up to the first that is refused. -/
theorem applyList_of_refused {before after : List (String × Change)} {p : String × Change}
    (e : Environment) (h : ∀ q ∈ before, Environment.accepts q.1 q.2 = true)
    (hp : Environment.accepts p.1 p.2 = false) :
    applyList (before ++ p :: after) e = (false, updateList before e) := by
  induction before generalizing e with
  | nil =>
    obtain ⟨k, c⟩ := p
    have hk : ¬ Environment.accepts k c = true := by simp [hp]
    rw [List.nil_append, applyList, if_neg hk]
    rfl
  | cons q before ih =>
    obtain ⟨k, c⟩ := q
    have hk : Environment.accepts k c = true := h (k, c) (by simp)
    rw [List.cons_append, applyList, if_pos hk]
    exact ih _ fun r hr => h r (List.mem_cons_of_mem _ hr)

/-- What was made if nothing was refused. -/
theorem updateList_of_applyList {l : List (String × Change)} {e : Environment}
    (h : (applyList l e).1 = true) : (applyList l e).2 = updateList l e := by
  induction l generalizing e with
  | nil => rfl
  | cons p l ih =>
    obtain ⟨k, c⟩ := p
    rw [applyList] at h ⊢
    by_cases hk : Environment.accepts k c = true
    · rw [if_pos hk] at h ⊢
      exact ih h
    · rw [if_neg hk] at h
      exact absurd h (by simp)

/-- **Applying changes that are all accepted is updating.** -/
theorem apply_eq_update {o : Overrides} (e : Environment)
    (h : ∀ p ∈ o.toList, Environment.accepts p.1 p.2 = true) : o.apply e = (true, o.update e) :=
  applyList_eq_updateList e h

theorem getElem?_updateList (l : List (String × Change)) (e : Environment) (k : String) :
    (updateList l e)[k]? = (l.reverse.lookup k).elim e[k]? Change.value? :=
  NameMap.getElem?_foldl (fun m key c k => Environment.getElem?_change m key k c) l e k

/-- **An update, variable by variable.** -/
theorem getElem?_update (o : Overrides) (e : Environment) (k : String) :
    (o.update e)[k]? =
      match o.changes[k]? with
      | some c => c.value?
      | none => e[k]? := by
  rw [update, toList, getElem?_updateList, NameMap.lookup_reverse_toList]
  cases o.changes[k]? <;> rfl

/-! ### Composition -/

/-- Looking up a key after inserting a list of pairs. -/
theorem getElem?_foldl_insert {α : Type} (l : List (String × α)) (m : NameMap α) (k : String) :
    (l.foldl (fun acc p => acc.insert p.1 p.2) m)[k]? = (l.reverse.lookup k).or m[k]? := by
  have hinsert : ∀ (m : NameMap α) key a k,
      (m.insert key a)[k]? = if key = k then some a else m[k]? :=
    fun m key a k => by simp [Std.ExtTreeMap.getElem?_insert]
  rw [NameMap.getElem?_foldl hinsert]
  cases l.reverse.lookup k <;> rfl

theorem getElem?_extend (o p : Overrides) (k : String) :
    (o.extend p).changes[k]? = p.changes[k]?.or o.changes[k]? := by
  have h := getElem?_foldl_insert p.changes.toList o.changes k
  rw [NameMap.lookup_reverse_toList] at h
  rw [extend, Std.ExtTreeMap.foldl_eq_foldl_toList]
  exact h

/-- **Extending is doing one update after the other.** -/
theorem update_extend (o p : Overrides) (e : Environment) :
    (o.extend p).update e = p.update (o.update e) := by
  apply Std.ExtTreeMap.ext_getElem?
  intro k
  rw [getElem?_update, getElem?_update, getElem?_update, getElem?_extend]
  cases p.changes[k]? <;> simp

end Overrides

/-! ### Going back -/

namespace Environment

/-- Looking up a variable after some were removed. -/
theorem getElem?_updateList_remove (keys : List String) (m : Environment) (k : String) :
    (Overrides.updateList (keys.map fun x => (x, .remove)) m)[k]? =
      if k ∈ keys then none else m[k]? := by
  induction keys generalizing m with
  | nil => simp [Overrides.updateList]
  | cons x xs ih =>
    have step : Overrides.updateList ((x :: xs).map fun x => (x, .remove)) m
        = Overrides.updateList (xs.map fun x => (x, .remove)) (m.change x .remove) := rfl
    rw [step, ih, getElem?_change]
    by_cases hk : k = x
    · subst hk
      simp [Change.value?]
    · have hx : ¬ x = k := fun h => hk h.symm
      simp [hk, hx]

/-- Setting variables is inserting them. -/
theorem updateList_set (l : List (String × String)) (m : Environment) :
    Overrides.updateList (l.map fun p => (p.1, .set p.2)) m =
      l.foldl (fun acc p => acc.insert p.1 p.2) m := by
  rw [Overrides.updateList, List.foldl_map]
  rfl

/-- The changes that bring back an earlier environment do bring it back. -/
theorem updateList_restoration (snapshot current : Environment) :
    Overrides.updateList (restoration snapshot current) current = snapshot := by
  apply Std.ExtTreeMap.ext_getElem?
  intro k
  have happend : Overrides.updateList (restoration snapshot current) current =
      Overrides.updateList (snapshot.toList.map fun p => (p.1, .set p.2))
        (Overrides.updateList
          ((current.keys.filter fun k => !snapshot.contains k).map fun k => (k, .remove))
          current) :=
    List.foldl_append
  rw [happend, updateList_set, Overrides.getElem?_foldl_insert, NameMap.lookup_reverse_toList,
    getElem?_updateList_remove]
  cases hs : snapshot[k]? with
  | some v => simp
  | none =>
    -- the variable is removed if it is there now
    have hnot : snapshot.contains k = false := by
      rw [Std.ExtTreeMap.contains_eq_isSome_getElem?, hs]
      rfl
    rw [Option.none_or, ite_eq_left_iff]
    intro h
    cases hc : current[k]? with
    | none => rfl
    | some v =>
      have hk : k ∈ current.keys := by
        rw [Std.ExtTreeMap.mem_keys]
        exact (Std.ExtTreeMap.mem_iff_isSome_getElem?).2 (by simp [hc])
      exact absurd (List.mem_filter.2 ⟨hk, by simp [hnot]⟩) h

/-- **Restoring brings back exactly the earlier environment,** unless a change is refused. -/
theorem restore_eq {snapshot current : Environment} (h : (restore snapshot current).1 = true) :
    (restore snapshot current).2 = snapshot := by
  have hmade := Overrides.updateList_of_applyList h
  exact hmade.trans (updateList_restoration snapshot current)

/-! ### Environments that the system accepts -/

theorem isValid_iff {e : Environment} :
    e.IsValid ↔ ∀ k v, e[k]? = some v → accepts k (.set v) = true := by
  refine ⟨fun h k v hk => h (k, v) ?_, fun h p hp => h p.1 p.2 ?_⟩
  · exact Std.ExtTreeMap.mem_toList_iff_getElem?_eq_some.2 hk
  · exact Std.ExtTreeMap.mem_toList_iff_getElem?_eq_some.1 hp

/-- A name that the system accepts with a value can be removed, too. -/
theorem accepts_remove {k v : String} (h : accepts k (.set v) = true) :
    accepts k .remove = true := by
  have hname : validName k && validValue v := h
  exact (Bool.and_eq_true_iff.1 hname).1

/-- A change that is accepted keeps an environment one that the system accepts. -/
theorem IsValid.change {e : Environment} (he : e.IsValid) {key : String} {c : Change}
    (hc : accepts key c = true) : (e.change key c).IsValid := by
  rw [isValid_iff] at he ⊢
  intro k v hk
  rw [getElem?_change] at hk
  by_cases hkey : key = k
  · subst hkey
    rw [if_pos rfl] at hk
    cases c with
    | set u =>
      obtain rfl : u = v := Option.some.inj hk
      exact hc
    | remove => exact absurd hk (by simp [Change.value?])
  · rw [if_neg hkey] at hk
    exact he k v hk

/-- Changes that are all accepted keep an environment one that the system accepts. -/
theorem IsValid.updateList {l : List (String × Change)}
    (hl : ∀ p ∈ l, accepts p.1 p.2 = true) {e : Environment} (he : e.IsValid) :
    (Overrides.updateList l e).IsValid := by
  induction l generalizing e with
  | nil => exact he
  | cons p l ih =>
    have hp : accepts p.1 p.2 = true := hl p (by simp)
    exact ih (fun q hq => hl q (List.mem_cons_of_mem _ hq)) (he.change hp)

/-- **Going back is never refused** between environments that the system accepts. -/
theorem IsValid.restore {snapshot current : Environment} (hs : snapshot.IsValid)
    (hc : current.IsValid) : Environment.restore snapshot current = (true, snapshot) := by
  have haccepted : ∀ p ∈ restoration snapshot current, accepts p.1 p.2 = true := by
    intro p hp
    rw [restoration, List.mem_append] at hp
    rcases hp with hp | hp
    · -- a variable that is there now, and so has a valid name
      obtain ⟨k, hk, rfl⟩ := List.mem_map.1 hp
      have hmem : k ∈ current.keys := (List.mem_filter.1 hk).1
      rw [Std.ExtTreeMap.mem_keys, Std.ExtTreeMap.mem_iff_isSome_getElem?] at hmem
      obtain ⟨v, hv⟩ := Option.isSome_iff_exists.1 hmem
      exact accepts_remove (isValid_iff.1 hc k v hv)
    · obtain ⟨q, hq, rfl⟩ := List.mem_map.1 hp
      exact hs q hq
  rw [Environment.restore, Overrides.applyList_eq_updateList _ haccepted,
    updateList_restoration]

end Environment

end SuiteGate
