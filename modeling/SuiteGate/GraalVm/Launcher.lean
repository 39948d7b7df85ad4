import SuiteGate.Suite.Basic
/-!
# Launchers

The build tool can build a GraalVM with one of three flavours of the launcher (`Launcher`).  The
flavour fixes which components are built (`Launcher.overrides`), and a sandboxed build loads more
suites (`dynamicImports`).  `Launcher.build` builds one and says where it is.
-/

namespace SuiteGate.GraalVm

/-- The flavours of the launcher. -/
inductive Launcher where
  /-- A shell script on a virtual machine. -/
  | script
  /-- A native image. -/
  | nativeImage
  /-- A shared library. -/
  | sharedLibrary
deriving DecidableEq, Repr

/-- The suites that every build loads. -/
def baseImports : List String := ["/vm", "/tools", "/substratevm"]

/-- The suites that a sandboxed build loads, too. -/
def sandboxedImports : List String := ["/sulong-managed", "/graalpython-enterprise"]

/-- The suites that a build loads. -/
def dynamicImports (sandboxed : Bool) : List String :=
  baseImports ++ if sandboxed then sandboxedImports else []

/-- The argument that asks for a sandboxed build. -/
def sandboxedArg : String := "sandboxed"

/-- Whether a sandboxed build is asked for, and the other arguments. -/
def takeSandboxed (args : List String) : Bool × List String :=
  (args.contains sandboxedArg, args.filter (· ≠ sandboxedArg))

/-- The directory of programs inside a GraalVM. -/
def binDir (home : Path) : Path :=
  home.child "bin"

/-- The launcher inside a GraalVM. -/
def launcherPath (home : Path) : Path :=
  (binDir home).child "graalpython"

/-- The GraalVM that a launcher is in. -/
def homeOf (launcher : Path) : Op Path :=
  match launcher.parent?.bind Path.parent? with
  | some home => pure home
  | none => Op.fail (.other (launcher.text ++ " is not inside a GraalVM"))

namespace Launcher

/-- The name of a flavour. -/
def name : Launcher → String
  | script => "gvm"
  | nativeImage => "svm"
  | sharedLibrary => "so"

/-- The overrides that choose the components of the build. -/
def overrides : Launcher → Overrides
  | script => Overrides.ofPairs
    [("FORCE_BASH_LAUNCHERS", "true"), ("DISABLE_AGENT", "true"),
     ("DISABLE_LIBPOLYGLOT", "true"), ("DISABLE_POLYGLOT", "true")]
  | nativeImage => Overrides.ofPairs
    [("FORCE_BASH_LAUNCHERS",
      "lli,native-image,gu,graalvm-native-clang,graalvm-native-clang++"),
     ("DISABLE_LIBPOLYGLOT", "true"), ("DISABLE_POLYGLOT", "true")]
  | sharedLibrary => Overrides.ofPairs
    [("FORCE_BASH_LAUNCHERS", "true"), ("DISABLE_LIBPOLYGLOT", "false"),
     ("DISABLE_POLYGLOT", "true")]

/-- Builds a GraalVM with a launcher and says where the launcher is. -/
def build (runner : Runner) (s : Suite) (l : Launcher) (sandboxed : Bool) : Op Path := do
  let tool := (s.buildTool.withDynamicImports (dynamicImports sandboxed)).withEnv l.overrides
  tool.build runner []
  return launcherPath (← tool.graalvmHome runner)

/-- Builds a launcher and, if there are arguments besides the one for a sandboxed build, runs it
once with them. -/
def buildAndRun (runner : Runner) (s : Suite) (l : Launcher) (args : List String) : Op Path := do
  let (sandboxed, rest) := takeSandboxed args
  let launcher ← build runner s l sandboxed
  if !rest.isEmpty then
    discard <| runner.runChecked ((Invocation.of launcher.text).withArgs rest)
  pure launcher

end Launcher

end SuiteGate.GraalVm
