import SuiteGate.GraalVm.Launcher
import SuiteGate.Native.Capi
import SuiteGate.Watch.Debounce
/-!
# Builds of the watch

What is built after a change (`Watch.build`), the start of a watch (`Watch.start`), which fails if
the suite cannot be watched, and a watch of the suite until the feed of its watcher is closed
(`Watch.follow`).
-/

namespace SuiteGate.Watch

/-- Builds what a mode asks for. -/
def build (runner : Runner) (s : Suite) : Mode → Op Unit
  | .full => s.buildTool.build runner []
  | .graalVm => discard <| GraalVm.Launcher.build runner s .script false
  | .noJava => nativeBuild runner s

/-- The filter for a suite. -/
def filterFor (s : Suite) (m : Mode) : Filter :=
  ⟨m, s.dir, s.config.watch.triggerExtensions⟩

/-- Begins to watch the suite, which has to exist. -/
def start (s : Suite) : Op Unit := do
  match ← Op.ask fun d cwd => d.stat cwd s.dir with
  | .ok _ => pure ()
  | .error e => Op.fail (.other ("Failed to watch " ++ s.dir.text ++ ": " ++ e.message))

/-- A build of a watch.  An error is its result; a panic ends the watch, and nothing is built
afterwards.  The time that a build takes depends on the world in which it starts. -/
def buildStep (runner : Runner) (s : Suite) (m : Mode) (duration : World → Nat) :
    World × Bool → (Except Error Unit × Nat) × (World × Bool)
  | (w, true) => ((.ok (), 0), (w, true))
  | (w, false) =>
    match (build runner s m).run.run w with
    | (.ok (), v) => ((.ok (), duration w), (v, false))
    | (.error (.error e), v) => ((.error e, duration w), (v, false))
    | (.error .panic, v) => ((.ok (), 0), (v, true))

/-- Watches the suite until the feed of the watcher is closed. -/
def follow (runner : Runner) (s : Suite) (m : Mode) (feed : Feed) (duration : World → Nat) :
    Op Unit := do
  start s
  let w ← get
  let outcome := run (filterFor s m) s.config.watch.quietPeriodMillis feed
    (buildStep runner s m duration) (w, false)
  set outcome.state.1
  if outcome.state.2 then throw .panic

end SuiteGate.Watch
