import SuiteGate.Environment
import SuiteGate.Error
import SuiteGate.Path
/-!
# Configurations

The settings of a suite in eight sections (`Config`), with their defaults as the default values of
the fields.  `Config.suitePath` is a path inside the suite, `Config.rootedAt` anchors a relative
suite directory, and `Config.validate` says what is wrong with a configuration.
-/

namespace SuiteGate

/-- Where the suite is and which programs drive it. -/
structure SuiteConfig where
  dir : Path := ⟨"."⟩
  name : String := "graalpython"
  mx : String := "mx"
  git : String := "git"
  pythonHome : Path := ⟨"graalpython"⟩
  sandboxed : Bool := false
  jvmci : Bool := false
deriving DecidableEq

/-- How the Python launcher is run. -/
structure PythonConfig where
  distributions : List String := ["GRAALPYTHON", "TRUFFLE_NFI", "SULONG"]
  mainClass : String := "com.oracle.graal.python.shell.GraalPythonMain"
  supportDistribution : String := "GRAALPYTHON_GRAALVM_SUPPORT"
  java : String := "java"
deriving DecidableEq

/-- How the C API project is built. -/
structure CapiConfig where
  project : String := "com.oracle.graal.python.cext"
  sourceDir : Path := ⟨"graalpython/com.oracle.graal.python.cext"⟩
  outputDir : Path := ⟨"mxbuild/graalpython/com.oracle.graal.python.cext"⟩
  headersDir : Path := ⟨"graalpython/include"⟩
  extraHeaders : List Path := []
  setupScript : Path := ⟨"setup.py"⟩
  buildEnv : NameMap String := ∅

/-- The native projects and the archives that depend on them. -/
structure NativeConfig where
  projects : List String := ["com.oracle.graal.python.cext"]
  archives : List String := ["GRAALPYTHON_GRAALVM_SUPPORT"]
deriving DecidableEq

/-- What the gate tasks use. -/
structure GateConfig where
  svmBenchmark : Path := ⟨"graalpython/benchmarks/src/benchmarks/image-magix.py"⟩
  svmBenchmarkPattern : String :=
    "[0, 0, 0, 0, 0, 0, 10, 10, 10, 0, 0, 10, 3, 10, 0, 0, 10, 10, 10, 0, 0, 0, 0, 0, 0]"
  copyrightOverrides : Path := ⟨"mx.graalpython/copyrights/overrides"⟩
deriving DecidableEq

/-- Where the unit tests are. -/
structure UnittestConfig where
  root : Path := ⟨"graalpython/com.oracle.graal.python.test/src/tests"⟩
  driver : Path := ⟨"graalpython/com.oracle.graal.python.test/src/graalpytest.py"⟩
  aotIncompatible : List String := ["test_interop.py"]
deriving DecidableEq

/-- What the watcher reacts to. -/
structure WatchConfig where
  quietPeriodMillis : Nat := 3000
  triggerExtensions : List String := [".c", ".h", ".class", ".jar"]
deriving DecidableEq

/-- How the imported suites are updated. -/
structure ImportsConfig where
  suiteFile : Path := ⟨"mx.graalpython/suite.py"⟩
  defaultRevision : String := "origin/master"
  sulongHeaders : List Path :=
    [⟨"sulong/projects/com.oracle.truffle.llvm.libraries.bitcode/include/truffle.h"⟩,
     ⟨"sulong/projects/com.oracle.truffle.llvm.libraries.bitcode/include/polyglot.h"⟩]
  checkouts : NameMap Path :=
    ((∅ : NameMap Path).insert "sulong" ⟨"../graal"⟩).insert "regex" ⟨"../graal"⟩

/-- The settings of a suite. -/
structure Config where
  suite : SuiteConfig := {}
  python : PythonConfig := {}
  capi : CapiConfig := {}
  native : NativeConfig := {}
  gate : GateConfig := {}
  unittest : UnittestConfig := {}
  watch : WatchConfig := {}
  imports : ImportsConfig := {}

instance : Inhabited Config := ⟨{}⟩

namespace NativeConfig

/-- The projects and the archives. -/
def dependencies (c : NativeConfig) : List String :=
  c.projects ++ c.archives

end NativeConfig

namespace Config

/-- A path inside the suite. -/
def suitePath (c : Config) (relative : Path) : Path :=
  c.suite.dir.join relative

/-- The configuration with a relative suite directory put below a directory. -/
def rootedAt (c : Config) (base : Path) : Config :=
  if c.suite.dir.isRelative then { c with suite := { c.suite with dir := base.join c.suite.dir } }
  else c

/-- The home of the launcher during development. -/
def devPythonHome (c : Config) : Path :=
  c.suitePath c.suite.pythonHome

/-- The output directory of the C API project. -/
def capiHome (c : Config) : Path :=
  c.suitePath c.capi.outputDir

/-- The source directory of the C API project. -/
def capiSource (c : Config) : Path :=
  c.suitePath c.capi.sourceDir

/-- The directory of staged headers. -/
def capiHeaders (c : Config) : Path :=
  c.suitePath c.capi.headersDir

/-- The directory of the unit tests. -/
def unittestRoot (c : Config) : Path :=
  c.suitePath c.unittest.root

/-- The script that runs the unit tests. -/
def unittestDriver (c : Config) : Path :=
  c.suitePath c.unittest.driver

/-! ### Validity -/

/-- Whether a text looks like `.c`: a dot and more behind it. -/
def isExtension (s : String) : Bool :=
  s.toList.head? = some '.' && 2 ≤ s.length

/-- The position of the first trigger extension that is none. -/
def badExtension? (extensions : List String) : Option Nat :=
  extensions.findIdx? fun e => !isExtension e

/-- What is wrong with a configuration, if anything is. -/
def fault? (c : Config) : Option ConfigError :=
  if c.suite.name.isEmpty then
    some (.invalidValue "suite.name" "suite name cannot be empty")
  else if c.suite.mx.isEmpty then
    some (.invalidValue "suite.mx" "mx executable cannot be empty")
  else if c.suite.git.isEmpty then
    some (.invalidValue "suite.git" "git executable cannot be empty")
  else if c.watch.quietPeriodMillis = 0 then
    some (.invalidValue "watch.quiet_period_ms" "must be greater than zero")
  else
    match badExtension? c.watch.triggerExtensions with
    | some i =>
      some (.invalidValue ("watch.trigger_extensions[" ++ toString i ++ "]")
        "extensions must look like \".c\"")
    | none =>
      if c.native.dependencies.isEmpty then
        some (.invalidValue "native" "at least one native project or archive is required")
      else if c.native.dependencies.any (·.toList.contains ',') then
        some (.invalidValue "native" "dependency names cannot contain commas")
      else none

/-- Accepts a configuration or says what is wrong with it. -/
def validate (c : Config) : Except ConfigError Unit :=
  match c.fault? with
  | some e => .error e
  | none => .ok ()

end Config

end SuiteGate
