import SuiteGate.Config.Settings
/-!
# Writing configurations

A configuration as TOML (`Config.toToml`), a section after the other with a blank line between
them, and the template that a new suite starts from (`Config.template`), which leaves out what is
seldom changed.
-/

namespace SuiteGate.Config

/-! ### Values -/

/-- A character inside quotes. -/
def escapeChar (c : Char) : List Char :=
  if c = '"' then ['\\', '"']
  else if c = '\\' then ['\\', '\\']
  else if c = '\n' then ['\\', 'n']
  else if c = '\t' then ['\\', 't']
  else if c = '\r' then ['\\', 'r']
  else [c]

/-- A text in quotes. -/
def quoted (s : String) : String :=
  "\"" ++ String.ofList (s.toList.flatMap escapeChar) ++ "\""

/-- How lists are laid out. -/
inductive ListLayout where
  /-- In one line. -/
  | line
  /-- Each item in a line of its own, if there is more than one. -/
  | block
deriving DecidableEq, Repr

/-- A list of texts. -/
def listText (layout : ListLayout) (ss : List String) : String :=
  if layout = .line || ss.length ≤ 1 then "[" ++ Text.join ", " (ss.map quoted) ++ "]"
  else "[\n" ++ String.join (ss.map fun s => "    " ++ quoted s ++ ",\n") ++ "]"

/-- The value of a setting that is written in its section. -/
def valueText? (layout : ListLayout) : Setting → Option String
  | .text s => some (quoted s)
  | .flag b => some (if b then "true" else "false")
  | .count n => some (toString n)
  | .texts ss => some (listText layout ss)
  | .named _ => none

/-! ### Sections -/

/-- A line with a name and its value. -/
def settingLine (name value : String) : String :=
  name ++ " = " ++ value ++ "\n"

/-- The head of a section. -/
def sectionHead (name : String) : String :=
  "[" ++ name ++ "]\n"

/-- The section of named texts that a setting is. -/
def innerSection? (outer : String) (setting : String × Setting) : Option String :=
  match setting.2 with
  | .named pairs =>
    some (sectionHead (outer ++ "." ++ setting.1) ++
      String.join (pairs.map fun p => settingLine p.1 (quoted p.2)))
  | _ => none

/-- A section with those behind it that belong to it. -/
def sectionTexts (layout : ListLayout) (name : String) (settings : List (String × Setting)) :
    List String :=
  let lines := settings.filterMap fun s =>
    (valueText? layout s.2).map (settingLine s.1)
  (sectionHead name ++ String.join lines) :: settings.filterMap (innerSection? name)

/-- Sections as text. -/
def sectionsText (layout : ListLayout) (sections : List (String × List (String × Setting))) :
    String :=
  Text.join "\n" (sections.flatMap fun s => sectionTexts layout s.1 s.2)

/-- A configuration as TOML. -/
def toToml (c : Config) : String :=
  sectionsText .block c.settings

/-! ### The template -/

/-- The sections that the template shows. -/
def templateSections : List String :=
  ["suite", "capi", "native", "unittest", "watch"]

/-- The settings that the template leaves out. -/
def templateOmissions : List String :=
  ["extra_headers", "build_env"]

/-- The text that a new configuration starts from. -/
def template : String :=
  let shown := ({} : Config).settings.filter (templateSections.contains ·.1)
  "# pymx configuration\n\n" ++
    sectionsText .line (shown.map fun s =>
      (s.1, s.2.filter fun m => !templateOmissions.contains m.1))

end SuiteGate.Config
