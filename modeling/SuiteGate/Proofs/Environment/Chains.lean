import SuiteGate.Host.Runner
import SuiteGate.Proofs.Environment.Overrides
import SuiteGate.Proofs.Environment.Scopes
import SuiteGate.Tools.BuildTool
/-!
# Chains of overrides

Overrides are put together step by step: variables are set and removed, and other overrides are
added, by themselves, in a build tool or in an invocation (`Overrides.Step`).  A chain of steps does
to an environment what the steps do one after the other (`update_foldl_onOverrides`), and of all
changes that it mentions the last one for a variable decides (`getElem?_foldl_effect`).

Two things are done with overrides: an action runs under them, or a program is started with them.
The second is a list of requests that are merged with the environment of the parent
(`Host.Requests`), and it gives the same environment as the first (`Host.Requests.environment_of`).

The headline is `Overrides.update_laws`.
-/

namespace SuiteGate

/-! ### Programs -/

namespace Host.Requests

theorem getElem?_grant (e : Environment) (key k : String) (value : Option String) :
    (grant e key value)[k]? = if key = k then value else e[k]? := by
  cases value <;> simp [grant, Std.ExtTreeMap.getElem?_insert, Std.ExtTreeMap.getElem?_erase]

theorem getElem?_of (o : Overrides) (k : String) :
    (Requests.of o)[k]? = o.changes[k]?.map Change.value? := by
  have hadd : ∀ (r : Requests) key c k,
      (r.add key c)[k]? = if key = k then some c.value? else r[k]? :=
    fun r key c k => by simp [add, Std.ExtTreeMap.getElem?_insert]
  rw [Requests.of, NameMap.getElem?_foldl hadd, Overrides.toList, NameMap.lookup_reverse_toList]
  cases o.changes[k]? with
  | none => simp
  | some c => rfl

theorem getElem?_environment (r : Requests) (e : Environment) (k : String) :
    (r.environment e)[k]? = r[k]?.getD e[k]? := by
  have hgrant : ∀ (e : Environment) key value k,
      (grant e key value)[k]? = if key = k then id value else e[k]? :=
    fun e key value k => getElem?_grant e key k value
  rw [environment, NameMap.getElem?_foldl hgrant, NameMap.lookup_reverse_toList]
  cases r[k]? <;> rfl

/-- **A program is started** in the updated environment. -/
theorem environment_of (o : Overrides) (e : Environment) :
    (Requests.of o).environment e = o.update e := by
  refine Std.ExtTreeMap.ext_getElem? fun k => ?_
  rw [getElem?_environment, getElem?_of, Overrides.getElem?_update]
  cases o.changes[k]? <;> rfl

end Host.Requests

namespace Overrides

/-! ### Steps -/

/-- A step of a chain that makes overrides. -/
inductive Step where
  | set (key value : String)
  | remove (key : String)
  | extend (other : Overrides)

namespace Step

/-- The overrides after one more step. -/
def onOverrides (o : Overrides) : Step → Overrides
  | set key value => o.set key value
  | remove key => o.remove key
  | extend other => o.extend other

/-- The invocation after one more step. -/
def onInvocation (i : Invocation) : Step → Invocation
  | set key value => i.set key value
  | remove key => i.unset key
  | extend other => i.extendEnv other

/-- What a step does to an environment. -/
def effect (e : Environment) : Step → Environment
  | set key value => e.insert key value
  | remove key => e.erase key
  | extend other => other.update e

/-- The changes that a step asks for. -/
def mentions : Step → List (String × Change)
  | set key value => [(key, .set value)]
  | remove key => [(key, .remove)]
  | extend other => other.toList

theorem effect_eq_updateList (e : Environment) (s : Step) : s.effect e = updateList s.mentions e := by
  cases s <;> rfl

/-- **One more step** is done after all that the overrides do. -/
theorem update_onOverrides (o : Overrides) (s : Step) (e : Environment) :
    (s.onOverrides o).update e = s.effect (o.update e) := by
  cases s with
  | set key value =>
    refine Std.ExtTreeMap.ext_getElem? fun k => ?_
    rw [onOverrides, getElem?_update, getElem?_set, effect, Std.ExtTreeMap.getElem?_insert,
      getElem?_update]
    by_cases hk : key = k <;> simp [hk, Change.value?]
  | remove key =>
    refine Std.ExtTreeMap.ext_getElem? fun k => ?_
    rw [onOverrides, getElem?_update, getElem?_remove, effect, Std.ExtTreeMap.getElem?_erase,
      getElem?_update]
    by_cases hk : key = k <;> simp [hk, Change.value?]
  | extend other => exact update_extend o other e

theorem overrides_onInvocation (i : Invocation) (s : Step) :
    (s.onInvocation i).overrides = s.onOverrides i.overrides := by
  cases s <;> rfl

end Step

/-! ### Chains -/

/-- **A chain of steps** does what its steps do, one after the other. -/
theorem update_foldl_onOverrides (o : Overrides) (steps : List Step) (e : Environment) :
    (steps.foldl Step.onOverrides o).update e = steps.foldl Step.effect (o.update e) := by
  induction steps generalizing o with
  | nil => rfl
  | cons s steps ih => rw [List.foldl_cons, ih, Step.update_onOverrides, List.foldl_cons]

theorem overrides_foldl_onInvocation (i : Invocation) (steps : List Step) :
    (steps.foldl Step.onInvocation i).overrides = steps.foldl Step.onOverrides i.overrides := by
  induction steps generalizing i with
  | nil => rfl
  | cons s steps ih => rw [List.foldl_cons, ih, Step.overrides_onInvocation, List.foldl_cons]

theorem overrides_foldl_withEnv (t : BuildTool) (os : List Overrides) :
    (os.foldl BuildTool.withEnv t).overrides =
      (os.map Step.extend).foldl Step.onOverrides t.overrides := by
  induction os generalizing t with
  | nil => rfl
  | cons o os ih => rw [List.foldl_cons, ih, List.map_cons, List.foldl_cons]; rfl

theorem foldl_effect_eq_updateList (steps : List Step) (e : Environment) :
    steps.foldl Step.effect e = updateList (steps.flatMap Step.mentions) e := by
  induction steps generalizing e with
  | nil => rfl
  | cons s steps ih =>
    rw [List.foldl_cons, ih, Step.effect_eq_updateList, List.flatMap_cons, updateList, updateList,
      updateList, List.foldl_append]

/-- **The last mention of a variable decides.** -/
theorem getElem?_foldl_effect (steps : List Step) (e : Environment) (k : String) :
    (steps.foldl Step.effect e)[k]? =
      ((steps.flatMap Step.mentions).reverse.lookup k).elim e[k]? Change.value? := by
  rw [foldl_effect_eq_updateList, getElem?_updateList]

/-- An invocation of the build tool under some overrides, with further steps behind them. -/
def invocationOf (t : BuildTool) (os : List Overrides) (args : List String) (steps : List Step) :
    Invocation :=
  steps.foldl Step.onInvocation ((os.foldl BuildTool.withEnv t).invocation args)

/-- **The program of such an invocation** is started in the environment that all steps make. -/
theorem environment_startOf_invocationOf (t : BuildTool) (os : List Overrides)
    (args : List String) (steps : List Step) (w : World) (cwd : List Name) :
    (Host.startOf (invocationOf t os args steps) w cwd).environment =
      (os.map Step.extend ++ steps).foldl Step.effect (t.overrides.update w.environment) := by
  have htool : ((os.foldl BuildTool.withEnv t).invocation args).overrides =
      (os.foldl BuildTool.withEnv t).overrides :=
    empty_extend _
  rw [Host.startOf, Host.Requests.environment_of, invocationOf, overrides_foldl_onInvocation, htool,
    overrides_foldl_withEnv, update_foldl_onOverrides, update_foldl_onOverrides, List.foldl_append]

/-! ### Laws -/

/-- **An action and a program** see the same of overrides: if none is refused, an action runs in the
environment in which a program is started. -/
theorem run_withEnv_startOf (i : Invocation) {w : World} (cwd : List Name)
    (hw : w.environment.IsValid)
    (ho : ∀ p ∈ i.overrides.toList, ¬ Environment.Refuses p.1 p.2) {α : Type} (x : Action α) :
    (Op.withEnv i.overrides x.toOp).run.run w =
      ((x.toOp.run.run { w with environment := (Host.startOf i w cwd).environment }).1, w) := by
  have ho : ∀ p ∈ i.overrides.toList, Environment.accepts p.1 p.2 = true := fun p hp =>
    Environment.accepts_eq_true_iff.2 (ho p hp)
  have hupdated : (i.overrides.update w.environment).IsValid := hw.updateList ho
  obtain ⟨r, e, hrun, he⟩ :=
    x.exists_environment (w := { w with environment := i.overrides.update w.environment }) hupdated
  rw [Op.run_withEnv_of_accepted ho hw hrun he, Host.startOf, Host.Requests.environment_of, hrun]

/-- **Overrides act on environments.**  Adding overrides to others is doing one update after the
other, with no change as the identity.  The program of an invocation is started in the updated
environment, and an action under the same overrides runs in that environment, unless one of them is
refused and it does not run at all.  A variable has a value in overrides exactly if they give it
that value in every environment.  So a chain of steps has the effect of its steps in their order, in
a build tool and an invocation, too, and the last mention of a variable decides. -/
theorem update_laws (a b c : Overrides) (e : Environment) :
    ((a.extend b).update e = b.update (a.update e) ∧ empty.update e = e ∧
      (a.extend b).extend c = a.extend (b.extend c) ∧ empty.extend a = a ∧ a.extend empty = a) ∧
    (∀ (i : Invocation) (w : World) (cwd : List Name),
      (Host.startOf i w cwd).environment = i.overrides.update w.environment ∧
      (w.environment.IsValid → (∀ p ∈ i.overrides.toList, ¬ Environment.Refuses p.1 p.2) →
        ∀ {α : Type} (x : Action α), (Op.withEnv i.overrides x.toOp).run.run w =
          ((x.toOp.run.run { w with environment := (Host.startOf i w cwd).environment }).1, w)) ∧
      (w.environment.IsValid → (∃ p ∈ i.overrides.toList, Environment.Refuses p.1 p.2) →
        ∀ {α : Type} (op : Op α), (Op.withEnv i.overrides op).run.run w = (.error .panic, w))) ∧
    (∀ k v : String, List.TFAE [a.get? k = some v, ∀ e : Environment, (a.update e)[k]? = some v,
      ∀ e : Environment, e.IsValid → (a.update e)[k]? = some v]) ∧
    (∀ steps : List Step,
      (steps.foldl Step.onOverrides a).update e = steps.foldl Step.effect (a.update e)) ∧
    (∀ (t : BuildTool) (os : List Overrides) (args : List String) (steps : List Step) (w : World)
      (cwd : List Name), (Host.startOf (invocationOf t os args steps) w cwd).environment =
        (os.map Step.extend ++ steps).foldl Step.effect (t.overrides.update w.environment)) ∧
    ∀ (steps : List Step) (k : String), (steps.foldl Step.effect e)[k]? =
      ((steps.flatMap Step.mentions).reverse.lookup k).elim e[k]? Change.value? := by
  refine ⟨⟨update_extend a b e, update_empty e, extend_assoc a b c, empty_extend a,
    extend_empty a⟩, fun i w cwd => ⟨Host.Requests.environment_of _ _, ?_, ?_⟩, get?_tfae a,
    fun steps => update_foldl_onOverrides a steps e, environment_startOf_invocationOf,
    fun steps k => getElem?_foldl_effect steps e k⟩
  · exact fun hw ho _ x => run_withEnv_startOf i cwd hw ho x
  · exact fun hw ho _ op => Op.run_withEnv_of_refused ho hw op

/-- A build tool that sets a variable, which an invocation removes and sets again. -/
theorem update_laws_small :
    let w := World.start (Disk.empty ⟨0⟩) [] ⟨"/tmp"⟩ (.ofList [("A", "1"), ("B", "2")])
    let t : BuildTool := { program := "mx", suiteDir := ⟨"/s"⟩ }
    let i := invocationOf t [empty.set "A" "x", empty.remove "B"] ["build"]
      [.remove "A", .extend ((empty.set "A" "y").set "C" "3")]
    let x : Action (Option String) := .reads "A" fun a => .reads "B" fun b =>
      .ends (if b = none then .ok a else .error .panic)
    w.environment.IsValid ∧ (∀ p ∈ i.overrides.toList, ¬ Environment.Refuses p.1 p.2) ∧
      (Op.withEnv i.overrides x.toOp).run.run w = (.ok (some "y"), w) := by
  intro w t i x
  have hw : w.environment.IsValid := by decide +kernel
  have ho : ∀ p ∈ i.overrides.toList, ¬ Environment.Refuses p.1 p.2 := by decide +kernel
  have hends : (x.toOp.run.run { w with environment := (Host.startOf i w []).environment }).1 =
      .ok (some "y") := by decide +kernel
  refine ⟨hw, ho, ?_⟩
  rw [((update_laws empty empty empty ∅).2.1 i w []).2.1 hw ho x, hends]

end Overrides

end SuiteGate
