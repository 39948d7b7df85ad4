import SuiteGate.Config.Basic
/-!
# Settings

A configuration as a table of sections, each a list of named settings in their order
(`Config.settings`), for writing it out.
-/

namespace SuiteGate

/-- The value of a setting. -/
inductive Setting where
  | text (s : String)
  | flag (b : Bool)
  | count (n : Nat)
  | texts (ss : List String)
  | named (pairs : List (String × String))
deriving DecidableEq, Repr

/-- A list of paths as texts. -/
def Setting.ofPaths (ps : List Path) : Setting :=
  .texts (ps.map Path.text)

namespace Config

/-- A configuration as a table of sections. -/
def settings (c : Config) : List (String × List (String × Setting)) :=
  [("suite",
    [("dir", .text c.suite.dir.text), ("name", .text c.suite.name), ("mx", .text c.suite.mx),
     ("git", .text c.suite.git), ("python_home", .text c.suite.pythonHome.text),
     ("sandboxed", .flag c.suite.sandboxed), ("jvmci", .flag c.suite.jvmci)]),
   ("python",
    [("distributions", .texts c.python.distributions), ("main_class", .text c.python.mainClass),
     ("support_distribution", .text c.python.supportDistribution),
     ("java", .text c.python.java)]),
   ("capi",
    [("project", .text c.capi.project), ("source_dir", .text c.capi.sourceDir.text),
     ("output_dir", .text c.capi.outputDir.text), ("headers_dir", .text c.capi.headersDir.text),
     ("extra_headers", .ofPaths c.capi.extraHeaders),
     ("setup_script", .text c.capi.setupScript.text),
     ("build_env", .named c.capi.buildEnv.toList)]),
   ("native", [("projects", .texts c.native.projects), ("archives", .texts c.native.archives)]),
   ("gate",
    [("svm_benchmark", .text c.gate.svmBenchmark.text),
     ("svm_benchmark_pattern", .text c.gate.svmBenchmarkPattern),
     ("copyright_overrides", .text c.gate.copyrightOverrides.text)]),
   ("unittest",
    [("root", .text c.unittest.root.text), ("driver", .text c.unittest.driver.text),
     ("aot_incompatible", .texts c.unittest.aotIncompatible)]),
   ("watch",
    [("quiet_period_ms", .count c.watch.quietPeriodMillis),
     ("trigger_extensions", .texts c.watch.triggerExtensions)]),
   ("imports",
    [("suite_file", .text c.imports.suiteFile.text),
     ("default_revision", .text c.imports.defaultRevision),
     ("sulong_headers", .ofPaths c.imports.sulongHeaders),
     ("checkouts", .named (c.imports.checkouts.toList.map fun p => (p.1, p.2.text)))])]

end Config

end SuiteGate
