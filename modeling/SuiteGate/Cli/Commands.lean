import SuiteGate.Cli.Arguments
import SuiteGate.Cli.Failure
import SuiteGate.Config.Load
import SuiteGate.Gate.MarkerLog
import SuiteGate.Gate.SuiteTasks
import SuiteGate.Gate.SummaryFormat
import SuiteGate.Imports.Search
import SuiteGate.Suite.Coverage
import SuiteGate.Suite.Deployment
import SuiteGate.Vendored.Refresh
import SuiteGate.Watch.Build
/-!
# Carrying out commands

What the command line does with its arguments (`Cli.run`): it reads them, goes to the directory,
loads the configuration of the suite, carries out the command and writes what came of it.  A
failure is written as one line and decides the exit code.  What the program meets besides the world
are its `Surroundings`; unless others are given, there is no terminal and no change to watch.
-/

namespace SuiteGate.Cli

/-- A part of a command. -/
abbrev Step (α : Type) := ExceptT Failure (StateM World) α

namespace Step

/-- An operation as a part of a command. -/
def ofOp {α : Type} (op : Op α) : Step α := fun w =>
  match op.run.run w with
  | (.ok a, w) => (.ok a, w)
  | (.error (.error e), w) => (.error (.operation e), w)
  | (.error .panic, w) => (.error .panic, w)

/-- Asks the disk, from the current directory, what it may refuse. -/
def query {α : Type} (f : Disk → List Name → Except IoError α) : Step α := do
  let w : World ← get
  match f w.disk w.cwd with
  | .ok a => return a
  | .error e => throw (.io e)

/-- Writes a text. -/
def print (text : String) : Step Unit :=
  modify fun (w : World) => w.print text

/-- Writes a line. -/
def printLine (text : String) : Step Unit :=
  print (text ++ "\n")

/-- Writes a document. -/
def printJson (j : Json) : Step Unit :=
  printLine j.pretty

end Step

/-! ### Lines -/

/-- A line about something done. -/
def doneLine (text : String) : String := "✓ " ++ text

/-- A line about something to note. -/
def noteLine (text : String) : String := "→ " ++ text

/-- A line about something that went wrong but does not count as a failure. -/
def warningLine (text : String) : String := "! " ++ text

/-- A line with a name and a value. -/
def valueLine (name value : String) : String := "  " ++ name ++ ": " ++ value

/-- A text brought to a width with blanks behind it. -/
def leftAligned (width : Nat) (s : String) : String :=
  s ++ String.ofList (List.replicate (width - s.length) ' ')

/-! ### Surroundings -/

/-- A terminal: whether the user goes on when they are waited for, and what they answer.  It can
fail, and says so in a text. -/
structure Terminal where
  pause : String → World → Except String Unit
  confirm : String → World → Except String Bool

/-- No terminal. -/
def Terminal.none : Terminal where
  pause _ _ := .error "IO error: not a terminal"
  confirm _ _ := .error "IO error: not a terminal"

/-- The user at a terminal. -/
def Terminal.prompt (t : Terminal) : Prompt where
  shows message := message ++ "\n\n"
  pause message w := (t.pause message w).mapError .other
  confirm question w := (t.confirm question w).mapError .other

/-- What the program meets besides the world. -/
structure Surroundings where
  terminal : Terminal := .none
  /-- What arrives from the watcher of a watch, until the program is told to end. -/
  feed : Watch.Feed := ⟨[], 0⟩
  /-- The time that a build of a watch takes, if it starts in a world. -/
  duration : World → Nat := fun _ => 0
  /-- The bound on the commits that a search goes through. -/
  maxCommits : Nat := 1000000

/-! ### Commands -/

/-- Goes to a directory. -/
def changeDirectory (dir : Path) : Step Unit := do
  let (place, node) ← Step.query fun d cwd => d.locate cwd dir true
  if node.isDir then modify fun (w : World) => { w with cwd := place }
  else throw (.io (.os .notDirectory))

/-- Goes to the directory that the settings name, if they name one. -/
def enter (settings : Settings) : Step Unit :=
  match settings.directory with
  | some dir => changeDirectory dir
  | none => pure ()

/-- The suite of the current directory. -/
def suite (settings : Settings) : Step Suite := do
  let w : World ← get
  let (config, _) ← Step.ofOp (Op.loadConfigOrDefault (Path.ofNames w.cwd))
  return ⟨config, settings.verbosity⟩

/-- Writes the markers of the events of the gate. -/
def markerReporter : Gate.Reporter World :=
  Gate.MarkerLog.report (fun w => w.disk.clock) (fun line w => .ok (w.print line))
    fun text w => w.warn text

/-- Receives the events of the gate; a document has no markers. -/
def gateReporter (settings : Settings) : Gate.Reporter World :=
  match settings.format with
  | .text => markerReporter
  | .json => fun _ w => w

/-- Writes what became of the gate, and fails if a task did. -/
def conclude (settings : Settings) : Except Gate.Failure Gate.Summary → Step Unit
  | .ok summary =>
    match settings.format with
    | .json => Step.printJson summary.toJson
    | .text =>
      if settings.quiet then pure ()
      else Step.printLine (doneLine ("Gate passed: " ++ toString summary.passed.length ++
        " task(s) run, " ++ toString summary.skipped.length ++ " skipped"))
  | .error (.task task cause) => do
    if settings.format = .json then
      Step.printJson (Json.ofMembers
        [("error", .ofString cause.message), ("failed", .ofString task)])
    throw (.gate task cause)
  | .error .panic => throw .panic

/-- Runs the gate. -/
def gate (runner : Runner) (settings : Settings) (s : Suite) (tags : Option String) :
    Step Unit := do
  conclude settings (← Step.ofOp
    (Gate.runSuiteGate runner s (tags.map Gate.Selection.parse) (gateReporter settings)))

/-- Lists the tags. -/
def listTags (settings : Settings) (s : Suite) : Step Unit := do
  let defaults := Gate.Selection.defaults s.config.suite.sandboxed
  match settings.format with
  | .json =>
    Step.printJson (.arr (Gate.Tag.all.map fun t => Json.ofMembers
      [("default", .bool (defaults.contains t.text)), ("sandboxed", .bool t.isSandboxed),
       ("tag", .ofString t.text)]))
  | .text =>
    Step.printLine "Gate tags"
    Gate.Tag.all.forM fun t =>
      Step.printLine ("  " ++ leftAligned 34 t.text ++ " " ++
        if defaults.contains t.text then "default" else "opt-in")

/-- Builds a launcher and writes where it is. -/
def runLauncher (runner : Runner) (settings : Settings) (s : Suite) (l : GraalVm.Launcher)
    (args : List String) : Step Unit := do
  let path ← Step.ofOp (l.buildAndRun runner s args)
  match settings.format with
  | .json =>
    Step.printJson (Json.ofMembers [("launcher", .ofString l.name), ("path", .ofString path.text)])
  | .text => Step.printLine path.text

/-- Looks for the commit of another checkout, among at most so many, and writes what was found. -/
def findImport (runner : Runner) (maxCommits : Nat) (settings : Settings) (s : Suite)
    (checkout : Path) : Step Unit := do
  let path ← Step.query fun d cwd => d.canonicalize cwd checkout
  let found := match ← Step.ofOp (Imports.Search.run runner s maxCommits path) with
    | .found commit => some commit
    | _ => none
  match settings.format with
  | .json =>
    Step.printJson (Json.ofMembers
      [("commit", (found.map Json.ofString).getD .null), ("path", .ofString path.text)])
  | .text =>
    Step.printLine (valueLine "checkout" path.text)
    Step.printLine (match found with
      | some commit => doneLine ("Checked out " ++ commit)
      | none => warningLine "No matching commit found, reverted to the starting commit")

/-- Refreshes the vendored sources. -/
def refresh (runner : Runner) (terminal : Terminal) (settings : Settings) (s : Suite)
    (cpython pypy : Path) (message : String) : Step Unit := do
  let cpython ← Step.query fun d cwd => d.canonicalize cwd cpython
  let pypy ← Step.query fun d cwd => d.canonicalize cwd pypy
  let r : Vendored.Refresh := ⟨cpython, pypy, message⟩
  let report ← Step.ofOp (r.run runner terminal.prompt s)
  match settings.format with
  | .json =>
    Step.printJson (Json.ofMembers
      [("missing", .ofStrings (report.missing.map Path.text)), ("pushed", .bool report.pushed),
       ("updated", .ofStrings (report.updated.map Path.text))])
  | .text =>
    report.missing.forM fun p => Step.printLine (warningLine ("Could not update " ++ p.text))
    Step.printLine (doneLine ("Updated " ++ toString report.updated.length ++
      " inlined file(s), merged python-import"))
    Step.printLine (noteLine "Resolve any merge conflicts, then run `pymx checkcopyrights --fix`")

/-- Writes a line unless that is not wanted. -/
def unlessQuiet (settings : Settings) (line : String) : Step Unit :=
  if settings.quiet then pure () else Step.printLine line

/-- Watches the suite. -/
def watch (runner : Runner) (surroundings : Surroundings) (settings : Settings)
    (full graalVm noJava : Bool) : Step Unit := do
  match Watch.Mode.ofFlags full graalVm noJava with
  | .error e => throw (.usage e)
  | .ok mode =>
    let s ← suite settings
    unlessQuiet settings (noteLine ("Watching " ++ s.dir.text ++ " (" ++ mode.name ++
      "), press Ctrl-C to stop"))
    Step.ofOp (Watch.follow runner s mode surroundings.feed surroundings.duration)

/-- Carries out a command. -/
def execute (runner : Runner) (surroundings : Surroundings) (settings : Settings) (c : Command) :
    Step Unit := do
  let within (op : Suite → Op Unit) : Step Unit := do Step.ofOp (op (← suite settings))
  let reporting (op : Suite → Op Unit) (text : String) : Step Unit := do
    within op
    unlessQuiet settings (doneLine text)
  enter settings
  match c with
  | .gate tags => gate runner settings (← suite settings) tags
  | .tags => listTags settings (← suite settings)
  | .nativeBuild => reporting (nativeBuild runner) "Native build done"
  | .nativeClean => reporting (nativeClean runner) "Native outputs cleaned"
  | .watch full graalVm noJava => watch runner surroundings settings full graalVm noJava
  | .python args => within fun s => discard (Python.run runner s args .interactive)
  | .launcher l args => runLauncher runner settings (← suite settings) l args
  | .junit args => within (Tests.runJunit runner · args)
  | .stdlibTests args => within (Tests.runStdlibTests runner · args)
  | .retag args => within (Tests.retag runner · args)
  | .updateImport names => reporting (Imports.updateImports runner · names) "Imports updated"
  | .style fix => reporting (Style.styleChecks runner · fix) "Style checks passed"
  | .copyrights fix => reporting (Style.checkCopyrights runner · fix) "Copyright headers checked"
  | .refresh cpython pypy message =>
    refresh runner surroundings.terminal settings (← suite settings) cpython pypy message
  | .coverage args => within (coverage runner · args)
  | .deploy args =>
    let deployed ← Step.ofOp (deployIfMaster runner (← suite settings) args)
    unlessQuiet settings (if deployed then doneLine "Binaries deployed"
      else noteLine ("Not on " ++ deployBranch ++ ", nothing deployed"))
  | .findImport checkout =>
    findImport runner surroundings.maxCommits settings (← suite settings) checkout

/-! ### The program -/

/-- The name and the version of the program, or of one of its commands. -/
def versionLine (command : Option String) : String :=
  "pymx" ++ (command.map ("-" ++ ·)).getD "" ++ " 0.1.0\n"

/-- How the program is used. -/
def usageText : String :=
  "Usage: pymx [OPTIONS] <COMMAND>\n\nCommands:\n" ++
    String.join (commandSpecs.map fun c => "  " ++ c.name ++ "\n")

/-- The world after a text was written to the stream of messages. -/
def complain (w : World) (text : String) : World :=
  { w with reported := w.reported ++ text.toUTF8 }

/-- Carries out what arguments ask for.  The result is the exit code. -/
def run (runner : Runner) (args : List String) (w : World) (surroundings : Surroundings := {}) :
    Nat × World :=
  match Request.ofArgs? args with
  | none => (2, complain w usageText)
  | some .help => (0, w.print usageText)
  | some (.version command) => (0, w.print (versionLine command))
  | some (.run settings command) =>
    match (execute runner surroundings settings command).run.run w with
    | (.ok (), w) => (Failure.success, w)
    | (.error f, w) => (f.exitCode, complain w f.line)

end SuiteGate.Cli
