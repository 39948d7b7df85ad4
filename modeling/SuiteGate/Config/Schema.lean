import SuiteGate.Config.Basic
import SuiteGate.Config.Document
/-!
# The schema of configurations

The settings of each section in their order, with their names and how each is read
(`Config.sections`).  `Config.ofDocument?` reads a document: what it does not mention keeps its
default, names that no setting has are passed over, and a list takes the settings in their order.
-/

namespace SuiteGate

/-- A part of a record: its name, and how it is read into a record. -/
structure Field (σ : Type) where
  name : String
  read : Document → σ → Option σ

namespace Field

section

variable {σ : Type}

/-- A field that is read in some way. -/
def ofReader {α : Type} (name : String) (reader : Document → Option α) (put : α → σ → σ) :
    Field σ :=
  ⟨name, fun d r => (reader d).map (put · r)⟩

/-- A field with a text. -/
def text (name : String) (put : String → σ → σ) : Field σ :=
  ofReader name Document.text? put

/-- A field with a path. -/
def path (name : String) (put : Path → σ → σ) : Field σ :=
  ofReader name Document.text? fun s => put ⟨s⟩

/-- A field with a truth value. -/
def flag (name : String) (put : Bool → σ → σ) : Field σ :=
  ofReader name Document.bool? put

/-- A field with a count. -/
def count (name : String) (put : Nat → σ → σ) : Field σ :=
  ofReader name Document.count? put

/-- A field with a list of texts. -/
def texts (name : String) (put : List String → σ → σ) : Field σ :=
  ofReader name Document.texts? put

/-- A field with a list of paths. -/
def paths (name : String) (put : List Path → σ → σ) : Field σ :=
  ofReader name Document.texts? fun ss => put (ss.map Path.mk)

/-- A field with named texts. -/
def namedTexts (name : String) (put : List (String × String) → σ → σ) : Field σ :=
  ofReader name Document.namedTexts? put

/-- Reads members one after the other into a record. -/
def readMembers (fields : List (Field σ)) (r : σ) (members : List (Option String × Document)) :
    Option σ :=
  members.foldlM (fun r m => do
    let name ← m.1
    match fields.find? (·.name = name) with
    | some f => f.read m.2 r
    | none => some r) r

/-- Whether no field is mentioned twice. -/
def mentionedOnce (fields : List (Field σ)) (members : List (Option String × Document)) : Bool :=
  fields.all fun f => (members.filter (·.1 = some f.name)).length ≤ 1

/-- Reads items in the order of the fields into a record. -/
def readItems : List (Field σ) → List Document → σ → Option σ
  | f :: fs, d :: ds, r => do readItems fs ds (← f.read d r)
  | _, _, r => some r

/-- Reads a document into a record. -/
def readRecord (fields : List (Field σ)) (r : σ) : Document → Option σ
  | .table members =>
    if mentionedOnce fields members then readMembers fields r members else none
  | .list items strict =>
    if strict && fields.length < items.length then none else readItems fields items r
  | d => if d.isBlank then some r else none

/-- A field that is a record of its own and starts from its default. -/
def nested {τ : Type} (name : String) (fields : List (Field τ)) (default : τ) (put : τ → σ → σ) :
    Field σ :=
  ofReader name (readRecord fields default) put

end

end Field

/-- A map of texts. -/
def NameMap.ofPairs {α : Type} (pairs : List (String × α)) : NameMap α :=
  pairs.foldl (fun m p => m.insert p.1 p.2) ∅

namespace Config

/-- The settings about the suite. -/
def suiteFields : List (Field SuiteConfig) :=
  [.path "dir" fun v r => { r with dir := v },
   .text "name" fun v r => { r with name := v },
   .text "mx" fun v r => { r with mx := v },
   .text "git" fun v r => { r with git := v },
   .path "python_home" fun v r => { r with pythonHome := v },
   .flag "sandboxed" fun v r => { r with sandboxed := v },
   .flag "jvmci" fun v r => { r with jvmci := v }]

/-- The settings about Python runs. -/
def pythonFields : List (Field PythonConfig) :=
  [.texts "distributions" fun v r => { r with distributions := v },
   .text "main_class" fun v r => { r with mainClass := v },
   .text "support_distribution" fun v r => { r with supportDistribution := v },
   .text "java" fun v r => { r with java := v }]

/-- The settings about the C API project. -/
def capiFields : List (Field CapiConfig) :=
  [.text "project" fun v r => { r with project := v },
   .path "source_dir" fun v r => { r with sourceDir := v },
   .path "output_dir" fun v r => { r with outputDir := v },
   .path "headers_dir" fun v r => { r with headersDir := v },
   .paths "extra_headers" fun v r => { r with extraHeaders := v },
   .path "setup_script" fun v r => { r with setupScript := v },
   .namedTexts "build_env" fun v r => { r with buildEnv := NameMap.ofPairs v }]

/-- The settings about native projects. -/
def nativeFields : List (Field NativeConfig) :=
  [.texts "projects" fun v r => { r with projects := v },
   .texts "archives" fun v r => { r with archives := v }]

/-- The settings about the gate. -/
def gateFields : List (Field GateConfig) :=
  [.path "svm_benchmark" fun v r => { r with svmBenchmark := v },
   .text "svm_benchmark_pattern" fun v r => { r with svmBenchmarkPattern := v },
   .path "copyright_overrides" fun v r => { r with copyrightOverrides := v }]

/-- The settings about unit tests. -/
def unittestFields : List (Field UnittestConfig) :=
  [.path "root" fun v r => { r with root := v },
   .path "driver" fun v r => { r with driver := v },
   .texts "aot_incompatible" fun v r => { r with aotIncompatible := v }]

/-- The settings about watching. -/
def watchFields : List (Field WatchConfig) :=
  [.count "quiet_period_ms" fun v r => { r with quietPeriodMillis := v },
   .texts "trigger_extensions" fun v r => { r with triggerExtensions := v }]

/-- The settings about imports. -/
def importsFields : List (Field ImportsConfig) :=
  [.path "suite_file" fun v r => { r with suiteFile := v },
   .text "default_revision" fun v r => { r with defaultRevision := v },
   .paths "sulong_headers" fun v r => { r with sulongHeaders := v },
   .namedTexts "checkouts" fun v r =>
     { r with checkouts := NameMap.ofPairs (v.map fun p => (p.1, ⟨p.2⟩)) }]

/-- The sections. -/
def sections : List (Field Config) :=
  [.nested "suite" suiteFields {} fun v c => { c with suite := v },
   .nested "python" pythonFields {} fun v c => { c with python := v },
   .nested "capi" capiFields {} fun v c => { c with capi := v },
   .nested "native" nativeFields {} fun v c => { c with native := v },
   .nested "gate" gateFields {} fun v c => { c with gate := v },
   .nested "unittest" unittestFields {} fun v c => { c with unittest := v },
   .nested "watch" watchFields {} fun v c => { c with watch := v },
   .nested "imports" importsFields {} fun v c => { c with imports := v }]

/-- Reads a configuration. -/
def ofDocument? (d : Document) : Option Config :=
  Field.readRecord sections {} d

end Config

end SuiteGate
