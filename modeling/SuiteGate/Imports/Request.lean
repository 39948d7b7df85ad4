import SuiteGate.Gate.Selection
/-!
# Requests for imports

Which imported suites are to be updated (`Request`).  Two of them always move together, and one
name stands for both (`Request.expand`).
-/

namespace SuiteGate.Imports

/-- A request to update imports. -/
structure Request where
  /-- Whether the overlays next to the suite are to be updated. -/
  overlay : Bool
  names : Std.ExtTreeSet String

namespace Request

/-- The name that stands for the overlays. -/
def overlayName : String := "overlay"

/-- The name that stands for both suites of the language framework. -/
def frameworkName : String := "truffle"

/-- The suites that always move together. -/
def pair : List String := ["sulong", "regex"]

/-- The request that a list of names makes; no names ask for the framework. -/
def expand (args : List String) : Request :=
  let asked := Std.ExtTreeSet.ofList (if args.isEmpty then [frameworkName] else args)
  let named := (asked.erase overlayName).erase frameworkName
  ⟨asked.contains overlayName,
    if asked.contains frameworkName || pair.any named.contains then named.insertMany pair
    else named⟩

end Request

end SuiteGate.Imports
