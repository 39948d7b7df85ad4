import SuiteGate.Config.Locate
import SuiteGate.Config.Schema
import SuiteGate.Files
import SuiteGate.Toml.Parser
import SuiteGate.Yaml.Parser
/-!
# Loading configurations

Reading a configuration file (`Op.loadConfig`), which is TOML if its extension says so and YAML
otherwise, and the configuration for a directory, with the defaults if there is no file
(`Op.loadConfigOrDefault`).
-/

namespace SuiteGate

namespace Config

/-- Reads a configuration in TOML. -/
def ofToml (text : String) : Except ConfigError Config :=
  match Toml.parse text with
  | .error fault => .error (.toml (fault.describe text))
  | .ok d =>
    match ofDocument? d with
    | some c => .ok c
    | none => .error (.toml "invalid type")

/-- Reads a configuration in YAML. -/
def ofYaml (text : String) : Except ConfigError Config :=
  match (Yaml.parse text).bind ofDocument? with
  | some c => .ok c
  | none => .error (.yaml "invalid document")

/-- Reads the text of a configuration file. -/
def ofText (file : Path) (text : String) : Except ConfigError Config :=
  if file.extension? = some "toml" then ofToml text else ofYaml text

/-- Anchors a configuration where its file is, and accepts it if nothing is wrong with it. -/
def settle (file : Path) (c : Config) : Except ConfigError Config := do
  let c := c.rootedAt (baseDir file)
  c.validate
  return c

end Config

namespace Op

/-- Loads a configuration file. -/
def loadConfig (file : Path) : Op Config := do
  match ← attempt (readText file) with
  | .ok text => ofExcept .config (Config.ofText file text >>= Config.settle file)
  | .error (.io cause) => fail (.config (.io cause))
  | .error e => fail e

/-- The configuration file for a directory. -/
def findConfig? (dir : Path) : Op (Option Path) :=
  ask fun d cwd => Config.find? d cwd dir

/-- Loads the configuration for a directory. -/
def loadConfigFrom (dir : Path) : Op (Config × Path) := do
  match ← findConfig? dir with
  | some file => return (← loadConfig file, file)
  | none => fail (.config (.notFound dir))

/-- Loads the configuration for a directory; without a file these are the defaults. -/
def loadConfigOrDefault (dir : Path) : Op (Config × Option Path) := do
  match ← findConfig? dir with
  | some file => return (← loadConfig file, some file)
  | none =>
    warn "no config found, using defaults"
    return (({} : Config).rootedAt dir, none)

end Op

end SuiteGate
