/-!
# Numbers of 64 bits

How many values 64 bits have (`Word64.count`), and which whole numbers they can stand for with a
sign or without one.
-/

namespace SuiteGate.Word64

/-- The number of values. -/
def count : Nat := Nat.pow 2 64

/-- The number of values with the sign for a negative one. -/
def half : Nat := Nat.pow 2 63

/-- Whether a number can be held without a sign. -/
def fitsUnsigned (n : Int) : Bool :=
  0 ≤ n && n < count

/-- Whether a number can be held with a sign. -/
def fitsSigned (n : Int) : Bool :=
  -half ≤ n && n < half

end SuiteGate.Word64
