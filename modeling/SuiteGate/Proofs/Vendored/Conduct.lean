import SuiteGate.Proofs.Tools.Repository
import SuiteGate.Vendored.Refresh
/-!
# How a refresh goes

A refresh does one thing after the other and stops at the first one that fails.  What it does is an
`Act`, together with what comes of it if it can be done; all of it in order is the `plan`.
`Conducted` says of a list of acts how far they were done, from which world each of them, and
`run_follows` that every refresh conducts its plan.

The headline is `run_orderly`.  The version control commands of a refresh are the first ones of a
fixed series (`commands`), whatever the programs and the user do, and `Orderly` lists what that
series and the order of the acts come to.
-/

namespace SuiteGate.Vendored.Refresh

/-! ### The plan -/

/-- One thing that a refresh does, with what comes of it if it can be done. -/
inductive Act where
  /-- The user is shown a message and waited for. -/
  | wait (message : String)
  /-- The list of the inlined files is read. -/
  | read (file : Path) (listing : Listing)
  /-- A program is run that must not print anything but blanks. -/
  | check (i : Invocation)
  /-- A program is run for what it prints. -/
  | query (i : Invocation) (printed : String)
  /-- A program is run. -/
  | run (i : Invocation)
  /-- The inlined files are replaced. -/
  | rewrite (listing : Listing) (report : RefreshReport)
  /-- The user is asked a question. -/
  | ask (question : String) (answer : Bool)

/-- Copies the inlined files from the source trees. -/
def overlay (r : Refresh) (s : Suite) (listing : Listing) : Op RefreshReport := do
  discard <| Op.copyTree (r.cpython.child "Lib") (s.path libraryDir)
  (r.files listing).foldlM (refreshFile s) ⟨[], [], false⟩

/-- Replaces the inlined files by those in the source trees. -/
def rewrite (r : Refresh) (s : Suite) (listing : Listing) : Op RefreshReport := do
  Op.removeTree (s.path ⟨"graalpython"⟩)
  overlay r s listing

/-- Fails unless everything is committed. -/
def requireClean (runner : Runner) (s : Suite) : Op Unit := do
  if ← s.git.isDirty runner s.dir then Op.fail (.other "Working dir must be clean")

/-- The list of the inlined files. -/
def listFile (s : Suite) : Path :=
  s.path s.config.gate.copyrightOverrides

/-- The list of the inlined files, read. -/
def readList (s : Suite) : Op Listing := do
  return Listing.parse (← Op.readText (listFile s))

section

variable (r : Refresh) (s : Suite)

def statusQuery : Invocation :=
  (s.git.invocation s.dir ["status", "--porcelain"]).captured

def tipQuery : Invocation :=
  s.git.tipQuery s.dir

def cleanCommand : Invocation :=
  s.git.invocation s.dir ["clean", "-fdx"]

def addCommand : Invocation :=
  s.git.invocation s.dir ["add", "."]

def commitCommand : Invocation :=
  s.git.invocation s.dir ["commit", "-m", r.commitMessage]

def pushCommand : Invocation :=
  s.git.invocation s.dir ["push", "origin", "python-import:python-import"]

def mergeCommand : Invocation :=
  s.git.invocation s.dir ["merge", "python-import"]

/-- The commands of a refresh that returns to a commit and does, or does not, send the branch. -/
def commands (tip : String) (push : Bool) : List Invocation :=
  [statusQuery s, tipQuery s, s.git.invocation s.dir ["checkout", "python-import"], cleanCommand s,
    addCommand s, commitCommand r s] ++
  (if push then [pushCommand s] else []) ++
  [s.git.invocation s.dir ["checkout", "--quiet", tip], mergeCommand s]

/-- What a refresh does before it replaces the inlined files. -/
def opening (listing : Listing) (tip : String) : List Act :=
  [.wait intro, .read (listFile s) listing, .check (statusQuery s), .query (tipQuery s) tip,
    .run (s.git.invocation s.dir ["checkout", "python-import"]), .run (cleanCommand s)]

/-- What it does until the user has looked at the files. -/
def inspection (listing : Listing) (report : RefreshReport) : List Act :=
  [.rewrite listing report, .run (addCommand s), .wait inspectMessage]

/-- What it does then. -/
def ending (tip : String) (push : Bool) : List Act :=
  [.run (commitCommand r s), .ask pushQuestion push] ++
  (if push then [.run (pushCommand s)] else []) ++
  [.run (s.git.invocation s.dir ["checkout", "--quiet", tip]), .run (mergeCommand s)]

/-- What a refresh does. -/
def plan (listing : Listing) (tip : String) (report : RefreshReport) (push : Bool) : List Act :=
  opening s listing tip ++ (inspection s listing report ++ ending r s tip push)

end

/-- **A refresh does what is planned,** one thing after the other. -/
theorem run_eq (runner : Runner) (prompt : Prompt) (r : Refresh) (s : Suite) :
    run runner prompt r s = (do
      prompt.wait intro
      let listing ← readList s
      requireClean runner s
      let tip ← s.git.tip runner s.dir
      s.git.checkout runner s.dir importBranch
      s.git.cleanAll runner s.dir
      let report ← r.rewrite s listing
      s.git.addAll runner s.dir
      prompt.wait inspectMessage
      s.git.commit runner s.dir r.commitMessage
      let push ← prompt.ask pushQuestion
      if push then s.git.push runner s.dir "origin" "python-import:python-import"
      s.git.update runner s.dir tip
      s.git.merge runner s.dir importBranch
      pure { report with pushed := push }) := by
  have hclean : ∀ rest : Op RefreshReport, (do
      if ← s.git.isDirty runner s.dir then Op.fail (.other "Working dir must be clean") else rest) =
        (do requireClean runner s; rest) := by
    intro rest
    rw [requireClean, bind_assoc]
    refine bind_congr fun dirty => ?_
    cases dirty <;> rfl
  have hpush : importBranch ++ ":" ++ importBranch = "python-import:python-import" := by decide
  have hsend : ∀ (push : Bool) (x y : Op Bool) (f : Bool → Op RefreshReport),
      (if push then x else y) >>= f = if push then x >>= f else y >>= f := by
    intro push x y f
    cases push <;> rfl
  simp only [run, commit, rewrite, overlay, readList, hclean, hpush, hsend, listFile, bind_assoc,
    pure_bind]

/-! ### Copying the files -/

section

variable {cwd : List Name} {I : RefreshReport → Disk → Prop}

/-- What holds of the report and the disk still holds after a file was treated, if it holds after
each change that this can be. -/
theorem works_refreshFile (s : Suite) (report : RefreshReport)
    (file : Path × (Disk → List Name → Path → Treatment))
    (hmissing : ∀ d, I report d → I { report with missing := report.missing ++ [file.1] } d)
    (hmade : ∀ d p, I report d → I report (d.makeDirAll cwd p).2)
    (hcopied : ∀ d d' source, I report d → d.copyFile cwd source (s.path file.1) = .ok d' →
      I { report with updated := report.updated ++ [file.1] } d') :
    (refreshFile s report file).Works cwd (I report) I := by
  refine .bind (.ask _) fun treatment => ?_
  cases treatment with
  | keep => exact .pure fun _ => id
  | missing => exact .bind (.warn _) fun _ => .pure hmissing
  | copy source =>
    have hparents : (Op.makeParents (s.path file.1)).Works cwd (I report) fun _ => I report := by
      refine .makeParents fun d hd => ?_
      rw [Disk.makeParents]
      split
      · exact hmade d _ hd
      · exact hd
    have hcopy : (Op.copyFile source (s.path file.1)).Works cwd (I report)
        fun _ => I { report with updated := report.updated ++ [file.1] } :=
      .change fun d d' hd hc => hcopied d d' source hd hc
    exact .bind hparents fun _ => .bind hcopy fun _ => .pure fun _ => id

/-- The same of all files, after the library was copied. -/
theorem works_overlay (r : Refresh) (s : Suite) (listing : Listing) {P : Disk → Prop}
    (hlibrary : ∀ d, P d →
      I ⟨[], [], false⟩ (d.copyTree cwd (r.cpython.child "Lib") (s.path libraryDir)).2)
    (hmissing : ∀ report file d, I report d →
      I { report with missing := report.missing ++ [file] } d)
    (hmade : ∀ report d p, I report d → I report (d.makeDirAll cwd p).2)
    (hcopied : ∀ report file d d' source, I report d →
      d.copyFile cwd source (s.path file) = .ok d' →
        I { report with updated := report.updated ++ [file] } d') :
    (overlay r s listing).Works cwd P I := by
  have htree : (discard <| Op.copyTree (r.cpython.child "Lib") (s.path libraryDir)).Works cwd P
      fun _ => I ⟨[], [], false⟩ := by
    rintro w rfl
    rw [Op.run_discard_copyTree]
    exact ⟨rfl, rfl, fun hP _ _ => hlibrary w.disk hP⟩
  exact .bind htree fun _ => .foldlM (fun report file _ =>
    works_refreshFile s report file (hmissing report file.1) (hmade report)
      (hcopied report file.1)) _

theorem works_rewrite (r : Refresh) (s : Suite) (listing : Listing) :
    (rewrite r s listing).Works cwd (fun _ => True) fun _ _ => True :=
  .bind (Q := fun _ _ => True) (.changePartly fun _ _ _ => trivial) fun _ =>
    works_overlay r s listing (fun _ _ => trivial) (fun _ _ _ _ => trivial)
      (fun _ _ _ _ => trivial) fun _ _ _ _ _ _ _ => trivial

end

/-! ### How far a plan is done -/

namespace Act

/-- The program that is run. -/
def command? : Act → Option Invocation
  | .check i | .query i _ | .run i => some i
  | .wait _ | .read _ _ | .rewrite _ _ | .ask _ _ => none

section

variable (runner : Runner) (prompt : Prompt) (r : Refresh) (s : Suite)

/-- The world after an act. -/
def after : Act → World → World
  | .wait message, w =>
    { w with asked := w.asked ++ [message] }.print (prompt.shows message)
  | .read _ _, w => w
  | .check i, w | .query i _, w | .run i, w => runner.after i w
  | .rewrite listing _, w => ((r.rewrite s listing).run.run w).2
  | .ask question _, w => { w with asked := w.asked ++ [question] }

/-- An act can be done, and this comes of it. -/
def Succeeds : Act → World → Prop
  | .wait message, w => prompt.pause message w = .ok ()
  | .read file listing, w =>
    ∃ text, w.disk.textAt w.cwd file = .ok text ∧ Listing.parse text = listing
  | .check i, w => ∃ output, runner.answer i w = .ok output ∧ Text.trim output.stdout = ""
  | .query i printed, w =>
    ∃ output, runner.answer i w = .ok output ∧ Text.trim output.stdout = printed
  | .run i, w => ∃ output, runner.answer i w = .ok output
  | .rewrite listing report, w => ((r.rewrite s listing).run.run w).1 = .ok report
  | .ask question answer, w => prompt.confirm question w = .ok answer

/-- An act cannot be done, whatever was to come of it. -/
def Fails : Act → World → Prop
  | .wait message, w => ∃ e, prompt.pause message w = .error e
  | .read file _, w => ∃ e, w.disk.textAt w.cwd file = .error e
  | .check i, w => ∀ output, runner.answer i w = .ok output → Text.trim output.stdout ≠ ""
  | .query i _, w | .run i, w => ∃ e, runner.answer i w = .error e
  | .rewrite listing _, w => ∃ e, ((r.rewrite s listing).run.run w).1 = .error e
  | .ask question _, w => ∃ e, prompt.confirm question w = .error e

theorem not_succeeds_of_fails {a : Act} {w : World} (h : a.Fails runner prompt r s w) :
    ¬ a.Succeeds runner prompt r s w := by
  cases a with
  | wait _ | rewrite _ _ | ask _ _ =>
    obtain ⟨e, he⟩ := h
    exact fun hs => nomatch he.symm.trans hs
  | read _ _ =>
    obtain ⟨e, he⟩ := h
    exact fun ⟨_, hs, _⟩ => nomatch he.symm.trans hs
  | check _ => exact fun ⟨output, hs, hblank⟩ => h output hs hblank
  | query _ _ =>
    obtain ⟨e, he⟩ := h
    exact fun ⟨_, hs, _⟩ => nomatch he.symm.trans hs
  | run _ =>
    obtain ⟨e, he⟩ := h
    exact fun ⟨_, hs⟩ => nomatch he.symm.trans hs

end

end Act

section

variable (runner : Runner) (prompt : Prompt) (r : Refresh) (s : Suite)

/-- `Conducted acts w steps w' done`: the acts were done one after the other, up to the first that
failed; each step is an act with the world before it. -/
inductive Conducted : List Act → World → List (Act × World) → World → Prop → Prop where
  | nil {w : World} : Conducted [] w [] w True
  | failed {a : Act} {as : List Act} {w : World} :
      a.Fails runner prompt r s w →
      Conducted (a :: as) w [(a, w)] (a.after runner prompt r s w) False
  | next {a : Act} {as : List Act} {w w' : World} {steps : List (Act × World)} {finished : Prop} :
      a.Succeeds runner prompt r s w →
      Conducted as (a.after runner prompt r s w) steps w' finished →
      Conducted (a :: as) w ((a, w) :: steps) w' finished

/-- An operation is an act, whatever comes of it. -/
def Does {α : Type} (op : Op α) (act : α → Act) : Prop :=
  ∀ w, match op.run.run w with
    | (.ok a, w') => (act a).Succeeds runner prompt r s w ∧ w' = (act a).after runner prompt r s w
    | (.error _, w') =>
      ∀ a, (act a).Fails runner prompt r s w ∧ w' = (act a).after runner prompt r s w

/-- An operation does the acts of one of the given plans, and ends with that plan's result if it
comes to the end of it. -/
def Follows {α : Type} (op : Op α) (Plan : List Act → α → Prop) : Prop :=
  ∀ w, ∃ acts a steps finished, Plan acts a ∧
    Conducted runner prompt r s acts w steps (op.run.run w).2 finished ∧
    ∀ b, (op.run.run w).1 = .ok b ↔ finished ∧ b = a

end

section

variable {runner : Runner} {prompt : Prompt} {r : Refresh} {s : Suite}

/-- **One act, and then a plan.** -/
theorem Follows.bind {α β : Type} [Nonempty α] {op : Op α} {f : α → Op β} {act : α → Act}
    {Plan : α → List Act → β → Prop} (hop : Does runner prompt r s op act)
    (hf : ∀ a, Follows runner prompt r s (f a) (Plan a)) :
    Follows runner prompt r s (op >>= f) fun acts b => ∃ a rest, acts = act a :: rest ∧
      Plan a rest b := by
  intro w
  have hop := hop w
  rw [Op.run_bind]
  rcases hrun : op.run.run w with ⟨e | a, v⟩
  · -- the plan that was not begun can be any of them
    rw [hrun] at hop
    obtain ⟨a⟩ := ‹Nonempty α›
    obtain ⟨hfails, rfl⟩ := hop a
    obtain ⟨rest, b, -, -, hplan, -, -⟩ := hf a w
    exact ⟨act a :: rest, b, _, False, ⟨a, rest, rfl, hplan⟩, .failed hfails, by simp⟩
  · rw [hrun] at hop
    obtain ⟨hsucceeds, rfl⟩ := hop
    obtain ⟨rest, b, steps, finished, hplan, hrest, hresult⟩ :=
      hf a ((act a).after runner prompt r s w)
    exact ⟨act a :: rest, b, _, finished, ⟨a, rest, rfl, hplan⟩, .next hsucceeds hrest, hresult⟩

theorem Follows.pure {α : Type} (a : α) :
    Follows runner prompt r s (pure a) fun acts b => acts = [] ∧ b = a :=
  fun _ => ⟨[], a, [], True, ⟨rfl, rfl⟩, .nil, fun _ =>
    ⟨fun h => ⟨trivial, (Except.ok.inj h).symm⟩, fun h => h.2 ▸ rfl⟩⟩

theorem Follows.mono {α : Type} {op : Op α} {P Q : List Act → α → Prop}
    (h : Follows runner prompt r s op P) (hPQ : ∀ acts a, P acts a → Q acts a) :
    Follows runner prompt r s op Q := by
  intro w
  obtain ⟨acts, a, steps, finished, hP, hconducted⟩ := h w
  exact ⟨acts, a, steps, finished, hPQ acts a hP, hconducted⟩

/-! ### The acts of a refresh -/

theorem does_wait (message : String) :
    Does runner prompt r s (prompt.wait message) fun _ => .wait message := by
  intro w
  have hrun : (prompt.wait message).run.run w = ((prompt.pause message w).mapError .error,
      { w with asked := w.asked ++ [message] }.print (prompt.shows message)) := by
    change (Op.ofExcept id (prompt.pause message w)).run.run _ = _
    rw [Op.run_ofExcept]
    rfl
  rw [hrun]
  cases hpause : prompt.pause message w with
  | error e => exact fun _ => ⟨⟨e, hpause⟩, rfl⟩
  | ok u => exact ⟨hpause, rfl⟩

theorem does_ask (question : String) :
    Does runner prompt r s (prompt.ask question) (.ask question) := by
  intro w
  have hrun : (prompt.ask question).run.run w = ((prompt.confirm question w).mapError .error,
      { w with asked := w.asked ++ [question] }) := by
    change (Op.ofExcept id (prompt.confirm question w)).run.run _ = _
    rw [Op.run_ofExcept]
    rfl
  rw [hrun]
  cases hconfirm : prompt.confirm question w with
  | error e => exact fun _ => ⟨⟨e, hconfirm⟩, rfl⟩
  | ok answer => exact ⟨hconfirm, rfl⟩

theorem does_readList :
    Does runner prompt r s (readList s) (.read (listFile s)) := by
  intro w
  rw [readList, Op.run_bind, Op.run_readText]
  cases htext : w.disk.textAt w.cwd (listFile s) with
  | error e => exact fun _ => ⟨⟨e, htext⟩, rfl⟩
  | ok text => exact ⟨⟨text, htext, rfl⟩, rfl⟩

theorem does_command (args : List String) :
    Does runner prompt r s (s.git.command runner s.dir args) fun _ =>
      .run (s.git.invocation s.dir args) := by
  intro w
  rw [Git.run_command]
  cases hanswer : runner.answer (s.git.invocation s.dir args) w with
  | error e => exact fun _ => ⟨⟨e, hanswer⟩, rfl⟩
  | ok output => exact ⟨⟨output, hanswer⟩, rfl⟩

theorem does_tip :
    Does runner prompt r s (s.git.tip runner s.dir) (.query (tipQuery s)) := by
  intro w
  rw [Git.run_tip, ← tipQuery]
  cases hanswer : runner.answer (tipQuery s) w with
  | error e => exact fun _ => ⟨⟨e, hanswer⟩, rfl⟩
  | ok output => exact ⟨⟨output, hanswer, rfl⟩, rfl⟩

theorem does_requireClean :
    Does runner prompt r s (requireClean runner s) fun _ => .check (statusQuery s) := by
  intro w
  have hdirty : (s.git.isDirty runner s.dir).run.run w =
      (((runner.answer (statusQuery s) w).map fun o => !(Text.trim o.stdout).isEmpty).mapError
        .error, runner.after (statusQuery s) w) := by
    rw [Git.isDirty, Op.run_bind, Git.run_output, ← statusQuery]
    cases runner.answer (statusQuery s) w <;> rfl
  rw [requireClean, Op.run_bind, hdirty]
  cases hanswer : runner.answer (statusQuery s) w with
  | error e => exact fun _ => ⟨fun output ho => by simp [hanswer] at ho, rfl⟩
  | ok output =>
    cases hblank : (Text.trim output.stdout).isEmpty with
    | true =>
      simp only [Except.map, Except.mapError, hblank]
      exact ⟨⟨output, hanswer, String.isEmpty_iff.mp hblank⟩, rfl⟩
    | false =>
      simp only [Except.map, Except.mapError, hblank]
      refine fun _ => ⟨fun output' ho => ?_, rfl⟩
      obtain rfl := Except.ok.inj (hanswer.symm.trans ho)
      simp [← String.isEmpty_iff, hblank]

theorem does_rewrite (listing : Listing) :
    Does runner prompt r s (r.rewrite s listing) (.rewrite listing) := by
  intro w
  rcases hrun : (r.rewrite s listing).run.run w with ⟨e | report, v⟩
  · exact fun _ => ⟨⟨e, congrArg Prod.fst hrun⟩, (congrArg Prod.snd hrun).symm⟩
  · exact ⟨congrArg Prod.fst hrun, (congrArg Prod.snd hrun).symm⟩

/-- The way back to a commit, and the merge. -/
theorem follows_return {α : Type} (tip : String) (a : α) :
    Follows runner prompt r s (do
      s.git.update runner s.dir tip
      s.git.merge runner s.dir importBranch
      pure a) fun acts b => acts = [.run (s.git.invocation s.dir ["checkout", "--quiet", tip]),
        .run (mergeCommand s)] ∧ b = a := by
  refine (Follows.bind (does_command _) fun _ => .bind (does_command _) fun _ => .pure a).mono ?_
  rintro _ _ ⟨-, _, rfl, -, _, rfl, rfl, rfl⟩
  exact ⟨rfl, rfl⟩

/-- What comes after the question whether to send the branch. -/
theorem follows_answer {α : Type} (tip : String) (push : Bool) (a : α) :
    Follows runner prompt r s (if push then do
        s.git.push runner s.dir "origin" "python-import:python-import"
        s.git.update runner s.dir tip
        s.git.merge runner s.dir importBranch
        pure a
      else do
        s.git.update runner s.dir tip
        s.git.merge runner s.dir importBranch
        pure a) fun acts b => acts = (if push then [.run (pushCommand s)] else []) ++
          [.run (s.git.invocation s.dir ["checkout", "--quiet", tip]), .run (mergeCommand s)] ∧
        b = a := by
  cases push with
  | false => exact follows_return tip a
  | true =>
    refine (Follows.bind (does_command _) fun _ => follows_return tip a).mono ?_
    rintro _ _ ⟨-, _, rfl, rfl, rfl⟩
    exact ⟨rfl, rfl⟩

/-- What comes after the files were looked at. -/
theorem follows_ending (tip : String) (report : RefreshReport) :
    Follows runner prompt r s (do
      s.git.commit runner s.dir r.commitMessage
      let push ← prompt.ask pushQuestion
      if push then s.git.push runner s.dir "origin" "python-import:python-import"
      s.git.update runner s.dir tip
      s.git.merge runner s.dir importBranch
      pure { report with pushed := push }) fun acts result =>
        ∃ push, acts = ending r s tip push ∧ result = { report with pushed := push } := by
  have hcommit : Does runner prompt r s (s.git.commit runner s.dir r.commitMessage) fun _ =>
    .run (commitCommand r s) := does_command _
  refine Follows.mono (Follows.bind hcommit fun _ => Follows.bind (does_ask pushQuestion)
    fun push => follows_answer tip push _) ?_
  rintro _ _ ⟨-, _, rfl, push, _, rfl, rfl, rfl⟩
  exact ⟨push, rfl, rfl⟩

/-- **Every refresh conducts its plan.** -/
theorem run_follows (runner : Runner) (prompt : Prompt) (r : Refresh) (s : Suite) :
    Follows runner prompt r s (run runner prompt r s) fun acts result =>
      ∃ listing tip report push, acts = plan r s listing tip report push ∧
        result = { report with pushed := push } := by
  have : Nonempty Listing := ⟨⟨[], []⟩⟩
  have : Nonempty RefreshReport := ⟨⟨[], [], false⟩⟩
  have hcheckout : Does runner prompt r s (s.git.checkout runner s.dir importBranch) fun _ =>
    .run (s.git.invocation s.dir ["checkout", "python-import"]) := does_command _
  have hclean : Does runner prompt r s (s.git.cleanAll runner s.dir) fun _ =>
    .run (cleanCommand s) := does_command _
  have hadd : Does runner prompt r s (s.git.addAll runner s.dir) fun _ =>
    .run (addCommand s) := does_command _
  rw [run_eq]
  refine Follows.mono (Follows.bind (does_wait intro) fun _ => Follows.bind does_readList
    fun listing => Follows.bind does_requireClean fun _ => Follows.bind does_tip fun tip =>
    Follows.bind hcheckout fun _ => Follows.bind hclean fun _ =>
    Follows.bind (does_rewrite listing) fun report => Follows.bind hadd fun _ =>
    Follows.bind (does_wait inspectMessage) fun _ => follows_ending tip report) ?_
  rintro _ _ ⟨-, _, rfl, listing, _, rfl, -, _, rfl, tip, _, rfl, -, _, rfl, -, _, rfl, report, _,
    rfl, -, _, rfl, -, _, rfl, push, rfl, rfl⟩
  exact ⟨listing, tip, report, push, rfl, rfl⟩

/-! ### What a plan that is conducted comes to -/

theorem Act.calls_after (a : Act) (w : World) :
    (a.after runner prompt r s w).calls = w.calls ++ (a.command?.map w.record).toList := by
  cases a with
  | check i | query i _ | run i => rfl
  | wait _ | read _ _ | ask _ _ => exact (List.append_nil _).symm
  | rewrite listing _ =>
    exact ((works_rewrite r s listing w rfl).2.1).trans (List.append_nil _).symm

/-- The programs that are run in some steps, on record. -/
def recorded (steps : List (Act × World)) : List Call :=
  steps.filterMap fun step => step.1.command?.map step.2.record

/-- The programs that are run in some steps. -/
def issued (steps : List (Act × World)) : List Invocation :=
  steps.filterMap fun step => step.1.command?

namespace Conducted

variable {acts before rest : List Act} {w w' : World} {steps : List (Act × World)}
  {finished : Prop}

theorem calls_eq (h : Conducted runner prompt r s acts w steps w' finished) :
    w'.calls = w.calls ++ recorded steps := by
  induction h with
  | nil => exact (List.append_nil _).symm
  | @failed a _ w =>
    rw [Act.calls_after]
    cases hc : a.command? <;> simp [recorded, hc]
  | @next a _ w _ _ _ _ _ ih =>
    rw [ih, Act.calls_after, List.append_assoc]
    cases hc : a.command? <;> simp [recorded, hc]

/-- The acts are done in the order of the plan. -/
theorem acts_prefix (h : Conducted runner prompt r s acts w steps w' finished) :
    steps.map Prod.fst <+: acts := by
  induction h with
  | nil => exact List.nil_prefix
  | failed _ => exact ⟨_, rfl⟩
  | next _ _ ih => exact (List.prefix_cons_inj _).mpr ih

theorem mem_acts (h : Conducted runner prompt r s acts w steps w' finished) {step : Act × World}
    (hstep : step ∈ steps) : step.1 ∈ acts :=
  h.acts_prefix.subset (List.mem_map_of_mem hstep)

/-- A step that was taken succeeded or failed. -/
theorem succeeds_or_fails (h : Conducted runner prompt r s acts w steps w' finished)
    {step : Act × World} (hstep : step ∈ steps) :
    step.1.Succeeds runner prompt r s step.2 ∨ step.1.Fails runner prompt r s step.2 := by
  induction h with
  | nil => cases hstep
  | failed hfails =>
    rw [List.mem_singleton.mp hstep]
    exact .inr hfails
  | next hsucceeds _ ih =>
    rcases List.mem_cons.mp hstep with rfl | hstep
    · exact .inl hsucceeds
    · exact ih hstep

/-- A plan is finished if no step failed. -/
theorem finished_iff (h : Conducted runner prompt r s acts w steps w' finished) :
    finished ↔ ∀ step ∈ steps, step.1.Succeeds runner prompt r s step.2 := by
  induction h with
  | nil => simp
  | failed hfails => simpa using Act.not_succeeds_of_fails runner prompt r s hfails
  | next hsucceeds _ ih => simp [ih, hsucceeds]

/-- If a plan is finished, all of it was done. -/
theorem acts_eq (h : Conducted runner prompt r s acts w steps w' finished) (hfin : finished) :
    steps.map Prod.fst = acts := by
  induction h with
  | nil => rfl
  | failed _ => exact hfin.elim
  | next _ _ ih => rw [List.map_cons, ih hfin]

/-- Each step but the last one succeeded. -/
theorem succeeds_of_later (h : Conducted runner prompt r s acts w steps w' finished)
    {earlier later : List (Act × World)} {last : Act × World}
    (hsplit : steps = earlier ++ last :: later) :
    ∀ step ∈ earlier, step.1.Succeeds runner prompt r s step.2 := by
  induction h generalizing earlier with
  | nil => simp at hsplit
  | failed _ =>
    cases earlier with
    | nil => simp
    | cons first earlier => simp at hsplit
  | next hsucceeds _ ih =>
    cases earlier with
    | nil => simp
    | cons first earlier =>
      obtain ⟨rfl, hrest⟩ := List.cons.inj hsplit
      exact List.forall_mem_cons.mpr ⟨hsucceeds, ih hrest⟩

/-- **What comes later in a plan is only done after all that comes first succeeded.** -/
theorem succeeds_of_not_mem (h : Conducted runner prompt r s (before ++ rest) w steps w' finished)
    {earlier later : List (Act × World)} {a : Act} {v : World}
    (hsplit : steps = earlier ++ (a, v) :: later) (ha : a ∉ before) :
    ∀ b ∈ before, ∃ u, (b, u) ∈ earlier ∧ b.Succeeds runner prompt r s u := by
  -- both the acts up to this one and the first part are prefixes of the plan, so one of the other
  have hdone : earlier.map Prod.fst ++ [a] <+: before ++ rest := by
    refine List.IsPrefix.trans ?_ h.acts_prefix
    exact ⟨later.map Prod.fst, by simp [hsplit]⟩
  have hbefore : before <+: earlier.map Prod.fst := by
    rcases List.prefix_or_prefix_of_prefix hdone (List.prefix_append before rest) with hin | hin
    · exact absurd (hin.subset (by simp)) ha
    · rcases List.prefix_concat_iff.mp hin with rfl | hin
      · simp at ha
      · exact hin
  intro b hb
  obtain ⟨⟨b, u⟩, hu, rfl⟩ := List.mem_map.mp (hbefore.subset hb)
  exact ⟨u, hu, h.succeeds_of_later hsplit _ hu⟩

/-- If a plan is finished, each act was done in the world that those before it left. -/
theorem mem_of_finished (before : List Act) {a : Act}
    (h : Conducted runner prompt r s (before ++ a :: rest) w steps w' finished) (hfin : finished) :
    (a, before.foldl (fun v b => b.after runner prompt r s v) w) ∈ steps := by
  induction before generalizing w steps with
  | nil =>
    cases h with
    | failed _ => exact hfin.elim
    | next _ _ => exact List.mem_cons_self ..
  | cons b before ih =>
    cases h with
    | failed _ => exact hfin.elim
    | next _ h => exact List.mem_cons_of_mem _ (ih h)

/-- What comes next in a plan is done in the world that the act before it left. -/
theorem exists_before {a b : Act}
    (h : Conducted runner prompt r s (before ++ a :: b :: rest) w steps w' finished) {u : World}
    (hb : (b, u) ∈ steps) (hbefore : b ∉ before) (hne : b ≠ a) (hrest : b ∉ rest) :
    ∃ v, (a, v) ∈ steps ∧ a.Succeeds runner prompt r s v ∧ u = a.after runner prompt r s v := by
  -- the induction is on what comes first in the plan, where the second act is not
  induction before generalizing w steps with
  | nil =>
    cases h with
    | failed _ => exact absurd (congrArg Prod.fst (List.mem_singleton.mp hb)) hne
    | next ha h =>
      have hb := (List.mem_cons.mp hb).resolve_left fun heq => hne (congrArg Prod.fst heq)
      have hu : u = a.after runner prompt r s w := by
        cases h with
        | failed _ => exact congrArg Prod.snd (List.mem_singleton.mp hb)
        | next _ h =>
          rcases List.mem_cons.mp hb with heq | hb
          · exact congrArg Prod.snd heq
          · exact absurd (h.mem_acts hb) hrest
      exact ⟨w, List.mem_cons_self .., ha, hu⟩
  | cons c before ih =>
    obtain ⟨hbc, hbefore⟩ : b ≠ c ∧ b ∉ before := by simpa using hbefore
    cases h with
    | failed _ => exact absurd (congrArg Prod.fst (List.mem_singleton.mp hb)) hbc
    | next _ h =>
      have hb := (List.mem_cons.mp hb).resolve_left fun heq => hbc (congrArg Prod.fst heq)
      obtain ⟨v, hv, ha⟩ := ih h hb hbefore
      exact ⟨v, List.mem_cons_of_mem _ hv, ha⟩

end Conducted

end

/-! ### Every refresh -/

/-- **What holds of every refresh.**  The steps are what it did, each with the world before it. -/
structure Orderly (runner : Runner) (prompt : Prompt) (r : Refresh) (s : Suite) (w : World)
    (result : Except Fault RefreshReport) (w' : World) (tip : String) (push : Bool)
    (steps : List (Act × World)) : Prop where
  /-- The steps are those of the plan, from the world at the start to that at the end. -/
  conducted : ∃ listing report finished,
    Conducted runner prompt r s (plan r s listing tip report push) w steps w' finished
  /-- No other programs are run than in the steps. -/
  calls : w'.calls = w.calls ++ recorded steps
  /-- The programs are the first ones of a fixed series. -/
  issued : issued steps <+: commands r s tip push
  /-- The refresh returns to the commit that was printed. -/
  tip_printed : ∀ v output, (.query (tipQuery s) tip, v) ∈ steps →
    runner.answer (tipQuery s) v = .ok output → Text.trim output.stdout = tip
  /-- The branch is sent if the user says so. -/
  push_answered : ∀ v answer, (.ask pushQuestion push, v) ∈ steps →
    prompt.confirm pushQuestion v = .ok answer → answer = push
  /-- All is well if all programs were run and neither they nor the user failed. -/
  ok_iff : (∃ report, result = .ok report) ↔
    Refresh.issued steps = commands r s tip push ∧
      (∀ a v i, (a, v) ∈ steps → a.command? = some i → ∃ output, runner.answer i v = .ok output) ∧
      (∀ message v, (.wait message, v) ∈ steps → prompt.pause message v = .ok ()) ∧
      ∀ question answer v, (.ask question answer, v) ∈ steps →
        ∃ answer, prompt.confirm question v = .ok answer
  /-- No program is run if the user does not go on at the start, or the list cannot be read. -/
  nothing_run : ((∃ e, prompt.pause intro w = .error e) ∨
    ∃ e, w.disk.textAt w.cwd (listFile s) = .error e) → w'.calls = w.calls
  /-- No other program is run if not everything is committed, or that cannot be told. -/
  status_only : ∀ v, (.check (statusQuery s), v) ∈ steps →
    (∀ output, runner.answer (statusQuery s) v = .ok output → Text.trim output.stdout ≠ "") →
      w'.calls = w.calls ++ [v.record (statusQuery s)]
  /-- Only programs change the disk before everything that is not tracked was removed. -/
  untouched : ∀ earlier a v later, steps = earlier ++ (a, v) :: later → a.command? = none →
    (a.after runner prompt r s v).disk ≠ v.disk →
      ∃ u output, (.run (cleanCommand s), u) ∈ earlier ∧
        runner.answer (cleanCommand s) u = .ok output
  /-- The files are committed only after the user has looked at them and gone on. -/
  inspected : ∀ earlier a v later, steps = earlier ++ (a, v) :: later →
    a.command? = some (commitCommand r s) →
      ∃ u, (.wait inspectMessage, u) ∈ earlier ∧ prompt.pause inspectMessage u = .ok ()
  /-- That the branch was sent is reported if it was. -/
  pushed_iff : ∀ report, result = .ok report → (report.pushed = true ↔
    ∃ a v output, (a, v) ∈ steps ∧ a.command? = some (pushCommand s) ∧
      runner.answer (pushCommand s) v = .ok output)

section

variable {runner : Runner} {prompt : Prompt} {r : Refresh} {s : Suite} {w w' : World}
  {listing : Listing} {tip : String} {report : RefreshReport} {push : Bool}
  {steps : List (Act × World)} {finished : Prop}

theorem filterMap_plan :
    (plan r s listing tip report push).filterMap Act.command? = commands r s tip push := by
  cases push <;> rfl

theorem issued_eq (steps : List (Act × World)) :
    issued steps = (steps.map Prod.fst).filterMap Act.command? := by
  rw [List.filterMap_map]
  rfl

/-- **The commands of a refresh are the first ones of the series.** -/
theorem Conducted.issued_prefix
    (h : Conducted runner prompt r s (plan r s listing tip report push) w steps w' finished) :
    issued steps <+: commands r s tip push := by
  rw [issued_eq, ← filterMap_plan]
  exact h.acts_prefix.filterMap _

/-- A program that succeeds in a step was run. -/
theorem Act.exists_answer {a : Act} {v : World} {i : Invocation}
    (ha : a.Succeeds runner prompt r s v) (hi : a.command? = some i) :
    ∃ output, runner.answer i v = .ok output := by
  cases a with
  | wait _ | read _ _ | rewrite _ _ | ask _ _ => cases hi
  | check j | query j _ =>
    obtain rfl := Option.some.inj hi
    obtain ⟨output, hanswer, -⟩ := ha
    exact ⟨output, hanswer⟩
  | run j =>
    obtain rfl := Option.some.inj hi
    exact ha

/-- **A plan all of whose programs were run is finished,** unless the last one failed. -/
theorem Conducted.finished_of_issued
    (h : Conducted runner prompt r s (plan r s listing tip report push) w steps w' finished)
    (hissued : issued steps = commands r s tip push)
    (hran : ∀ a v i, (a, v) ∈ steps → a.command? = some i →
      ∃ output, runner.answer i v = .ok output) : finished := by
  obtain ⟨init, hplan, hinit⟩ : ∃ init, plan r s listing tip report push =
      init ++ [.run (mergeCommand s)] ∧
        commands r s tip push = init.filterMap Act.command? ++ [mergeCommand s] := by
    cases push with
    | false => exact ⟨(plan r s listing tip report false).dropLast, rfl, rfl⟩
    | true => exact ⟨(plan r s listing tip report true).dropLast, rfl, rfl⟩
  -- the merge is the last act of the plan, so all the others were done
  have hacts : steps.map Prod.fst = init ++ [.run (mergeCommand s)] := by
    rcases List.prefix_concat_iff.mp (hplan ▸ h.acts_prefix) with hall | hin
    · exact hall
    · have hlength := (hin.filterMap Act.command?).length_le
      rw [← issued_eq, hissued, hinit] at hlength
      simp only [List.length_append, List.length_singleton] at hlength
      omega
  obtain ⟨earlier, last, rfl, -, hlast⟩ := List.map_eq_append_iff.mp hacts
  obtain ⟨⟨a, v⟩, rfl, ha⟩ := List.map_eq_singleton_iff.mp hlast
  obtain rfl : a = .run (mergeCommand s) := ha
  refine h.finished_iff.mpr fun step hstep => ?_
  rcases List.mem_append.mp hstep with hstep | hstep
  · exact h.succeeds_of_later rfl step hstep
  · rw [List.mem_singleton.mp hstep]
    exact hran (.run (mergeCommand s)) v _ (by simp) rfl

/-- The commit to which a refresh returns is the one that was printed. -/
theorem Conducted.tip_printed
    (h : Conducted runner prompt r s (plan r s listing tip report push) w steps w' finished)
    {v : World} {output : ToolOutput} (hstep : (.query (tipQuery s) tip, v) ∈ steps)
    (hanswer : runner.answer (tipQuery s) v = .ok output) : Text.trim output.stdout = tip := by
  rcases h.succeeds_or_fails hstep with ⟨o, ho, htip⟩ | ⟨e, he⟩
  · obtain rfl := Except.ok.inj (hanswer.symm.trans ho)
    exact htip
  · simp [hanswer] at he

/-- Whether the branch is to be sent is what the user answered. -/
theorem Conducted.push_answered
    (h : Conducted runner prompt r s (plan r s listing tip report push) w steps w' finished)
    {v : World} {answer : Bool} (hstep : (.ask pushQuestion push, v) ∈ steps)
    (hconfirm : prompt.confirm pushQuestion v = .ok answer) : answer = push := by
  rcases h.succeeds_or_fails hstep with ho | ⟨e, he⟩
  · exact Except.ok.inj (hconfirm.symm.trans ho)
  · simp [hconfirm] at he

/-- No program is run before the user goes on and the list is read. -/
theorem Conducted.nothing_run
    (h : Conducted runner prompt r s (plan r s listing tip report push) w steps w' finished)
    (hstop : (∃ e, prompt.pause intro w = .error e) ∨
      ∃ e, w.disk.textAt w.cwd (listFile s) = .error e) : w'.calls = w.calls := by
  -- the first two acts of the plan run no program
  cases h with
  | failed _ => rfl
  | next hwait h =>
    cases h with
    | failed _ => rfl
    | next hread _ =>
      obtain ⟨text, htext, -⟩ := hread
      rcases hstop with ⟨e, he⟩ | ⟨e, he⟩
      · exact nomatch hwait.symm.trans he
      · exact nomatch htext.symm.trans he

/-- No program is run behind a question for the status that is not answered with blanks. -/
theorem Conducted.status_only
    (h : Conducted runner prompt r s (plan r s listing tip report push) w steps w' finished)
    {v : World} (hstep : (.check (statusQuery s), v) ∈ steps)
    (hdirty : ∀ output, runner.answer (statusQuery s) v = .ok output →
      Text.trim output.stdout ≠ "") :
    w'.calls = w.calls ++ [v.record (statusQuery s)] := by
  cases h with
  | failed _ => simp at hstep
  | next _ h =>
    cases h with
    | failed _ => simp at hstep
    | next _ h =>
      cases h with
      | failed _ =>
        obtain rfl : v = _ := by simpa using hstep
        rfl
      | next hclean h =>
        obtain ⟨output, houtput, hblank⟩ := hclean
        rcases List.mem_cons.mp hstep with heq | hstep
        · simp at heq
        rcases List.mem_cons.mp hstep with heq | hstep
        · simp at heq
        rcases List.mem_cons.mp hstep with heq | hstep
        · obtain rfl := congrArg Prod.snd heq
          exact absurd hblank (hdirty output houtput)
        · -- the rest of the plan has no other check
          have hmem := h.mem_acts hstep
          cases push <;> simp [inspection, ending] at hmem

/-- An act of the opening is a program or leaves the disk alone. -/
theorem not_mem_opening {a : Act} {v : World} (hnone : a.command? = none)
    (hdisk : (a.after runner prompt r s v).disk ≠ v.disk) : a ∉ opening s listing tip := by
  intro hmem
  simp only [opening, List.mem_cons, List.not_mem_nil, or_false] at hmem
  rcases hmem with rfl | rfl | rfl | rfl | rfl | rfl
  · exact hdisk rfl
  · exact hdisk rfl
  all_goals cases hnone

/-- The commit is in neither of the first two parts of the plan. -/
theorem not_mem_of_commit {a : Act} (hcommit : a.command? = some (commitCommand r s)) :
    a ∉ opening s listing tip ++ inspection s listing report := by
  intro hmem
  simp only [opening, inspection, List.mem_append, List.mem_cons, List.not_mem_nil,
    or_false] at hmem
  rcases hmem with (rfl | rfl | rfl | rfl | rfl | rfl) | rfl | rfl | rfl <;>
    simp [Act.command?, commitCommand, statusQuery, tipQuery, cleanCommand, addCommand,
      Git.tipQuery, Git.invocation_inj, Git.captured_ne_invocation] at hcommit

/-- The branch is in the series only if it is to be sent. -/
theorem pushCommand_mem_commands_iff : pushCommand s ∈ commands r s tip push ↔ push = true := by
  cases push <;>
    simp [commands, pushCommand, statusQuery, tipQuery, cleanCommand, addCommand, commitCommand,
      mergeCommand, Git.tipQuery, Git.invocation_inj, Git.captured_ne_invocation.symm]

/-- In a plan that is finished the branch was sent exactly if it was to be sent. -/
theorem Conducted.pushed_iff
    (h : Conducted runner prompt r s (plan r s listing tip report push) w steps w' finished)
    (hfin : finished) :
    push = true ↔ ∃ a v output, (a, v) ∈ steps ∧ a.command? = some (pushCommand s) ∧
      runner.answer (pushCommand s) v = .ok output := by
  have hissued : issued steps = commands r s tip push := by
    rw [issued_eq, h.acts_eq hfin, filterMap_plan]
  have hpushed : pushCommand s ∈ commands r s tip push ↔ push = true :=
    pushCommand_mem_commands_iff
  rw [← hpushed, ← hissued, issued, List.mem_filterMap]
  constructor
  · rintro ⟨⟨a, v⟩, hstep, hpush⟩
    obtain ⟨output, houtput⟩ := Act.exists_answer (h.finished_iff.mp hfin _ hstep) hpush
    exact ⟨a, v, output, hstep, hpush, houtput⟩
  · rintro ⟨a, v, _, hstep, hpush, -⟩
    exact ⟨(a, v), hstep, hpush⟩

/-- A plan is finished exactly if all its programs were run and neither they nor the user failed. -/
theorem Conducted.finished_iff_issued
    (h : Conducted runner prompt r s (plan r s listing tip report push) w steps w' finished) :
    finished ↔ issued steps = commands r s tip push ∧
      (∀ a v i, (a, v) ∈ steps → a.command? = some i → ∃ output, runner.answer i v = .ok output) ∧
      (∀ message v, (.wait message, v) ∈ steps → prompt.pause message v = .ok ()) ∧
      ∀ question answer v, (.ask question answer, v) ∈ steps →
        ∃ answer, prompt.confirm question v = .ok answer := by
  refine ⟨fun hfin => ?_, fun hall => h.finished_of_issued hall.1 hall.2.1⟩
  have hall := h.finished_iff.mp hfin
  refine ⟨?_, fun a v i ha hi => Act.exists_answer (hall _ ha) hi, fun m v hm => hall _ hm,
    fun q answer v hq => ⟨answer, hall _ hq⟩⟩
  rw [issued_eq, h.acts_eq hfin, filterMap_plan]

theorem Conducted.orderly {result : Except Fault RefreshReport}
    (h : Conducted runner prompt r s (plan r s listing tip report push) w steps w' finished)
    (hresult : ∀ b, result = .ok b ↔ finished ∧ b = { report with pushed := push }) :
    Orderly runner prompt r s w result w' tip push steps where
  conducted := ⟨listing, report, finished, h⟩
  calls := h.calls_eq
  issued := h.issued_prefix
  tip_printed _ _ := h.tip_printed
  push_answered _ _ := h.push_answered
  ok_iff := by
    rw [← h.finished_iff_issued]
    exact ⟨fun ⟨b, hb⟩ => ((hresult b).mp hb).1, fun hfin => ⟨_, (hresult _).mpr ⟨hfin, rfl⟩⟩⟩
  nothing_run := h.nothing_run
  status_only _ := h.status_only
  untouched earlier a v later hsplit hnone hdisk := by
    obtain ⟨u, hu, output, houtput⟩ := h.succeeds_of_not_mem hsplit (not_mem_opening hnone hdisk)
      (.run (cleanCommand s)) (by simp [opening])
    exact ⟨u, output, hu, houtput⟩
  inspected earlier a v later hsplit hcommit := by
    rw [plan, ← List.append_assoc] at h
    exact h.succeeds_of_not_mem hsplit (not_mem_of_commit hcommit) (.wait inspectMessage)
      (by simp [inspection])
  pushed_iff b hb := by
    obtain ⟨hfin, rfl⟩ := (hresult b).mp hb
    exact h.pushed_iff hfin

/-- **Every refresh is orderly,** whatever the programs and the user do. -/
theorem run_orderly (runner : Runner) (prompt : Prompt) (r : Refresh) (s : Suite) (w : World) :
    ∃ tip push steps, Orderly runner prompt r s w ((run runner prompt r s).run.run w).1
      ((run runner prompt r s).run.run w).2 tip push steps := by
  obtain ⟨_, _, steps, finished, ⟨listing, tip, report, push, rfl, rfl⟩, hconducted, hresult⟩ :=
    run_follows runner prompt r s w
  exact ⟨tip, push, steps, hconducted.orderly hresult⟩

end

end SuiteGate.Vendored.Refresh
