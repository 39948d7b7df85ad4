import SuiteGate.Text.Lines
/-!
# Faults in TOML

Where a text stops being TOML and why (`Toml.Fault`).  The description shows the line with a mark
below the place (`Fault.describe`).
-/

namespace SuiteGate.Toml

/-- A fault, by the number of characters that are left of the text, and what is wrong there. -/
structure Fault where
  left : Nat
  message : String
deriving DecidableEq, Repr, Inhabited

namespace Fault

/-- So many blanks. -/
def blanks (n : Nat) : String :=
  String.ofList (List.replicate n ' ')

/-- The description of a fault in a text. -/
def describe (text : String) (f : Fault) : String :=
  let read := text.toList.take (text.length - f.left)
  let before := Text.splitChars '\n' read
  let line := before.length
  let column := (before.getLastD []).length
  let content := (Text.split '\n' text)[line - 1]?.getD ""
  let number := toString line
  let margin := blanks number.length
  "TOML parse error at line " ++ number ++ ", column " ++ toString (column + 1) ++ "\n" ++
    margin ++ " |\n" ++ number ++ " | " ++ content ++ "\n" ++
    margin ++ " | " ++ blanks column ++ "^\n" ++ f.message ++ "\n"

end Fault

end SuiteGate.Toml
