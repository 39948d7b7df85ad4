import SuiteGate.Imports.Update
import SuiteGate.Proofs.Disk.Texts
import SuiteGate.Proofs.Imports.Entries
import SuiteGate.Proofs.Tools.Repository
/-!
# One round of an update

A round of an update takes the checkout of an import to a revision (`fetch`) and records the commit
there in the suite definition (`record`, `updateImport_eq`).  Recording is all or nothing: a text
that can be read can be written, and whatever ends with an error has written nothing
(`run_record`).

The headline is `updateImport_textAt`: of a round that ends with an error nothing is seen in the
suite definition, and of one that does not, the new version of its import.
-/

namespace SuiteGate.Imports

/-- Takes a checkout to a revision and reads off the commit there. -/
def fetch (runner : Runner) (g : Git) (tree : Path) (revision : String) : Op String := do
  g.pull runner tree
  g.update runner tree revision
  g.tip runner tree

/-- Writes the version of an import into the suite definition, unless it stands there already. -/
def record (s : Suite) (name tip : String) : Op Unit := do
  let text ← Op.readText (suiteFile s)
  let updated ← Op.ofExcept id (exchange text name tip)
  if updated ≠ text then Op.writeText (suiteFile s) updated

/-- A round takes the checkout to the revision and then records the commit. -/
theorem updateImport_eq (runner : Runner) (s : Suite) (name revision : String) :
    updateImport runner s name revision = (do
      let dir ← checkoutOf s name
      let tip ← fetch runner s.git dir revision
      record s name tip
      pure tip) := by
  simp only [updateImport, fetch, record, bind_assoc]
  refine bind_congr fun dir => bind_congr fun _ => bind_congr fun _ => bind_congr fun tip =>
    bind_congr fun text => bind_congr fun updated => ?_
  split
  · rfl
  · rfl

/-- The commands of a round. -/
def commands (g : Git) (tree : Path) (revision : String) : List Invocation :=
  [g.pullCommand tree, g.updateCommand tree revision, g.tipQuery tree]

/-- The commands of a round leave the text of a file alone. -/
def Leaves (runner : Runner) (g : Git) (tree : Path) (revision : String) (file : Path) : Prop :=
  ∀ i ∈ commands g tree revision, ∀ w,
    (runner.after i w).disk.textAt w.cwd file = w.disk.textAt w.cwd file

/-- A commit that a checkout names when it is asked. -/
def Printed (runner : Runner) (g : Git) (tree : Path) (tip : String) : Prop :=
  ∃ v output, runner.answer (g.tipQuery tree) v = .ok output ∧ Text.trim output.stdout = tip

section

variable {runner : Runner} {s : Suite} {name revision : String} {w w' : World}

theorem run_fetch (runner : Runner) (g : Git) (tree : Path) (revision : String) (w : World) :
    (fetch runner g tree revision).run.run w =
      let pulled := runner.after (g.pullCommand tree) w
      let moved := runner.after (g.updateCommand tree revision) pulled
      match runner.answer (g.pullCommand tree) w with
      | .error e => (.error (.error e), pulled)
      | .ok _ =>
        match runner.answer (g.updateCommand tree revision) pulled with
        | .error e => (.error (.error e), moved)
        | .ok _ =>
          (((runner.answer (g.tipQuery tree) moved).map fun o => Text.trim o.stdout).mapError
            .error, runner.after (g.tipQuery tree) moved) := by
  simp only [fetch, Op.run_bind, Git.run_pull]
  cases runner.answer (g.pullCommand tree) w with
  | error e => rfl
  | ok _ =>
    simp only [Except.map, Except.mapError, Git.run_update]
    cases runner.answer (g.updateCommand tree revision) (runner.after (g.pullCommand tree) w) with
    | error e => rfl
    | ok _ => simp only [Git.run_tip, Except.map, Except.mapError]

/-- The result is a commit that was printed. -/
theorem printed_of_fetch {g : Git} {tree : Path} {tip : String}
    (hrun : (fetch runner g tree revision).run.run w = (.ok tip, w')) :
    Printed runner g tree tip := by
  rw [run_fetch] at hrun
  dsimp only at hrun
  split at hrun
  · cases hrun
  · split at hrun
    · cases hrun
    · obtain ⟨htip, -⟩ := Prod.mk.inj hrun
      cases hanswer : runner.answer (g.tipQuery tree) (runner.after (g.updateCommand tree revision)
          (runner.after (g.pullCommand tree) w)) with
      | error e => simp [hanswer, Except.map, Except.mapError] at htip
      | ok output =>
        rw [hanswer] at htip
        exact ⟨_, output, hanswer, Except.ok.inj htip⟩

/-- Taking a checkout to a revision leaves the suite definition alone, and the result is a commit
that was printed. -/
theorem fetch_textAt {g : Git} {tree file : Path} (hleaves : Leaves runner g tree revision file)
    {r : Except Fault String} (hrun : (fetch runner g tree revision).run.run w = (r, w')) :
    w'.cwd = w.cwd ∧ w'.disk.textAt w'.cwd file = w.disk.textAt w.cwd file ∧
      ∀ tip, r = .ok tip → Printed runner g tree tip := by
  have hpulled := hleaves (g.pullCommand tree) (by simp [commands]) w
  have hmoved := (hleaves (g.updateCommand tree revision) (by simp [commands]) _).trans hpulled
  have hasked := (hleaves (g.tipQuery tree) (by simp [commands]) _).trans hmoved
  refine (and_assoc.mp ⟨?_, fun tip htip => printed_of_fetch (htip ▸ hrun)⟩)
  rw [run_fetch] at hrun
  dsimp only at hrun
  split at hrun
  · obtain ⟨-, rfl⟩ := Prod.mk.inj hrun
    exact ⟨rfl, hpulled⟩
  · split at hrun
    · obtain ⟨-, rfl⟩ := Prod.mk.inj hrun
      exact ⟨rfl, hmoved⟩
    · obtain ⟨-, rfl⟩ := Prod.mk.inj hrun
      exact ⟨rfl, hasked⟩

/-- **Recording a commit is all or nothing.** -/
theorem run_record (name tip : String) {text : String}
    (htext : w.disk.textAt w.cwd (suiteFile s) = .ok text) :
    match exchange text name tip with
    | .error e => (record s name tip).run.run w = (.error (.error e), w)
    | .ok updated => ∃ d, (record s name tip).run.run w = (.ok (), { w with disk := d }) ∧
        d.textAt w.cwd (suiteFile s) = .ok updated ∧
        (d = w.disk ∨ w.disk.writeFile w.cwd (suiteFile s) updated.toUTF8 = .ok d) := by
  simp only [record, Op.run_bind, Op.run_readText, htext, Except.mapError]
  cases hexchange : exchange text name tip with
  | error e => rfl
  | ok updated =>
    by_cases hsame : updated = text
    · subst hsame
      refine ⟨w.disk, ?_, htext, .inl rfl⟩
      simp only [Op.run_ofExcept, Except.mapError]
      rw [if_neg (not_not_intro rfl), Op.run_pure]
    · obtain ⟨d, hwrite, hread⟩ := Disk.exists_textAt_of_writeFile htext updated
      refine ⟨d, ?_, hread, .inr hwrite⟩
      simp only [Op.run_ofExcept, Except.mapError]
      rw [if_pos hsame, Op.run_writeText, hwrite]

theorem run_checkoutOf (s : Suite) (name : String) (w : World) :
    (checkoutOf s name).run.run w =
      match s.config.imports.checkouts[name]? with
      | some dir => (.ok (s.path dir), w)
      | none => (.error (.error (.other ("no checkout configured for import " ++ name))), w) := by
  rw [checkoutOf]
  cases s.config.imports.checkouts[name]? <;> rfl

theorem exists_of_run_checkoutOf {dir : Path}
    (h : (checkoutOf s name).run.run w = (.ok dir, w')) :
    ∃ checkout, s.config.imports.checkouts[name]? = some checkout ∧ dir = s.path checkout ∧
      w = w' := by
  rw [run_checkoutOf] at h
  cases hdir : s.config.imports.checkouts[name]? with
  | none =>
    rw [hdir] at h
    cases h
  | some checkout =>
    rw [hdir] at h
    cases h
    exact ⟨checkout, rfl, rfl, rfl⟩

/-- **What a round does to the suite definition:** nothing if it ends with an error, and otherwise
the printed commit of the checkout becomes the version of the import. -/
theorem updateImport_textAt
    (hleaves : ∀ dir, s.config.imports.checkouts[name]? = some dir →
      Leaves runner s.git (s.path dir) revision (suiteFile s)) {text : String}
    (htext : w.disk.textAt w.cwd (suiteFile s) = .ok text) {r : Except Fault String}
    (hrun : (updateImport runner s name revision).run.run w = (r, w')) :
    match r with
    | .error _ => w'.disk.textAt w'.cwd (suiteFile s) = .ok text
    | .ok tip => ∃ dir updated, s.config.imports.checkouts[name]? = some dir ∧
        Printed runner s.git (s.path dir) tip ∧ exchange text name tip = .ok updated ∧
        w'.disk.textAt w'.cwd (suiteFile s) = .ok updated := by
  rw [updateImport_eq, Op.run_bind, run_checkoutOf] at hrun
  cases hdir : s.config.imports.checkouts[name]? with
  | none =>
    rw [hdir] at hrun
    obtain ⟨rfl, rfl⟩ := Prod.mk.inj hrun
    exact htext
  | some dir =>
    simp only [hdir, Op.run_bind] at hrun
    rcases hfetch : (fetch runner s.git (s.path dir) revision).run.run w with ⟨e | tip, v⟩
    · obtain ⟨-, hv, -⟩ := fetch_textAt (hleaves dir hdir) hfetch
      rw [hfetch] at hrun
      obtain ⟨rfl, rfl⟩ := Prod.mk.inj hrun
      exact hv.trans htext
    · obtain ⟨-, hv, hprinted⟩ := fetch_textAt (hleaves dir hdir) hfetch
      have hrecord := run_record name tip (hv.trans htext)
      rw [hfetch] at hrun
      dsimp only at hrun
      cases hexchange : exchange text name tip with
      | error e =>
        rw [hexchange] at hrecord
        rw [hrecord] at hrun
        obtain ⟨rfl, rfl⟩ := Prod.mk.inj hrun
        exact hv.trans htext
      | ok updated =>
        rw [hexchange] at hrecord
        obtain ⟨d, hd, hread, -⟩ := hrecord
        rw [hd] at hrun
        obtain ⟨rfl, rfl⟩ := Prod.mk.inj hrun
        exact ⟨dir, updated, rfl, hprinted tip rfl, hexchange, hread⟩

end

end SuiteGate.Imports
