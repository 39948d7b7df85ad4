import SuiteGate.Json.Value
import SuiteGate.Word64
/-!
# Parts of JSON documents

What a document is when it is read as a text, a list of texts or a count, and the value of the
member with a name (`valueOf?`), which has to be there once: a name that is repeated names nothing.
-/

namespace SuiteGate.Json

/-- The text that a document is. -/
def textOf? : Json → Option String
  | .str s => if s.exact then some s.text else none
  | _ => none

/-- The list of texts that a document is. -/
def textsOf? : Json → Option (List String)
  | .arr items => items.mapM textOf?
  | _ => none

/-- The number of at most 64 bits that a document is. -/
def countOf? : Json → Option Nat
  | .int n => if Word64.fitsUnsigned n then some n.toNat else none
  | _ => none

/-- The values of the members with a name. -/
def valuesOf (name : String) (members : List (JsonText × Json)) : List Json :=
  (members.filter fun m => m.1.text = name).map Prod.snd

/-- The value of the member with a name, if there is exactly one. -/
def valueOf? (name : String) (members : List (JsonText × Json)) : Option Json :=
  match valuesOf name members with
  | [v] => some v
  | _ => none

end SuiteGate.Json
