import SuiteGate.Developer.Programs
import SuiteGate.Files
import SuiteGate.Imports.Entry
import SuiteGate.Imports.Request
import SuiteGate.Suite.Basic
/-!
# Updating imports

An update of an import takes its checkout to a revision and writes the commit there into the suite
definition (`updateImport`).  The overlays are files next to the suite that name a commit of
another repository (`updateOverlays`).  `updateImports` does what a request asks for.
-/

namespace SuiteGate.Imports

/-- The checkout of an import. -/
def checkoutOf (s : Suite) (name : String) : Op Path :=
  match s.config.imports.checkouts[name]? with
  | some dir => pure (s.path dir)
  | none => Op.fail (.other ("no checkout configured for import " ++ name))

/-- The file with the suite definition. -/
def suiteFile (s : Suite) : Path :=
  s.path s.config.imports.suiteFile

/-- Takes the checkout of an import to a revision and writes the commit there into the suite
definition, unless it stands there already. -/
def updateImport (runner : Runner) (s : Suite) (name revision : String) : Op String := do
  let dir ← checkoutOf s name
  s.git.pull runner dir
  s.git.update runner dir revision
  let tip ← s.git.tip runner dir
  let text ← Op.readText (suiteFile s)
  let updated ← Op.ofExcept id (exchange text name tip)
  if updated ≠ text then Op.writeText (suiteFile s) updated
  pure tip

/-- The import whose checkout holds headers for the C API. -/
def headerImport : String := "sulong"

/-- Copies the headers in the checkout of an import to the sources of the C API. -/
def copyHeaders (s : Suite) : Op Unit := do
  let checkout ← checkoutOf s headerImport
  Op.copyAllInto (s.config.imports.sulongHeaders.map checkout.join)
    (s.config.capiSource.child "include")

/-- Whether a path ends in the name of a checkout like that of the suite. -/
def isSibling (p : Path) : Bool :=
  match p.fileName? with
  | some name => Text.startsWith name "graalpython"
  | none => false

/-- The checkouts in a directory that are like that of the suite, in order. -/
def siblings (d : Disk) (cwd : List Name) (dir : Path) : Except IoError (List Path) := do
  let es ← d.readDir cwd dir
  pure (((es.map fun e => dir.child e.1.text).filter isSibling).mergeSort Developer.pathLe)

/-- The line that names a commit of the overlays. -/
def overlayLine (tip : String) : String :=
  "\x7b overlay: \"" ++ tip ++ "\" \x7d\n"

/-- Names the current commit of the overlays in a checkout that has a file for it. -/
def updateOverlay (runner : Runner) (s : Suite) (parent dir : Path) : Op Unit := do
  let file := dir.child "ci.jsonnet"
  if ← Op.ask fun d cwd => d.pathExists cwd file then
    let overlays := parent.child "ci-overlays"
    if ← Op.ask fun d cwd => d.pathExists cwd overlays then
      let tip ← s.git.tip runner overlays
      Op.writeText file (overlayLine tip)
    else Op.fail (.other "Overlays must be next to repo")

/-- Names the current commit of the overlays in all checkouts next to the suite. -/
def updateOverlays (runner : Runner) (s : Suite) : Op Unit := do
  match s.dir.parent? with
  | none => Op.fail (.other "suite directory has no parent")
  | some parent =>
    (← Op.query fun d cwd => siblings d cwd parent).forM (updateOverlay runner s parent)

/-- Updates imports to the default revision, one after the other. -/
def updateNames (runner : Runner) (s : Suite) (names : List String) : Op Unit :=
  names.forM fun name => do
    discard <| updateImport runner s name s.config.imports.defaultRevision
    if name = headerImport then copyHeaders s

/-- Does what a list of names asks for. -/
def updateImports (runner : Runner) (s : Suite) (args : List String) : Op Unit := do
  let request := Request.expand args
  if request.overlay then updateOverlays runner s
  updateNames runner s request.names.toList

end SuiteGate.Imports
