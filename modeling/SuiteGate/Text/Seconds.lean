/-!
# Seconds with one decimal

A duration of whole seconds and nanoseconds is shown as a number of seconds with one decimal.  The
number that is rounded is not the duration itself but the nearest double precision number to it:
first the nanoseconds divided by 10⁹ are rounded to double precision, then their sum with the
seconds.  The decimal is that of the exact value of this number, a tie going to the even
neighbour (`roundHalfEven`).  Headline: `roundHalfEven` is within half a unit
(`roundHalfEven_bounds`).
-/

namespace SuiteGate.Text

/-- The integer nearest to a fraction, a tie going to the even one. -/
def roundHalfEven (num den : Nat) : Nat :=
  let q := num / den
  let r := num % den
  if 2 * r < den then q
  else if den < 2 * r then q + 1
  else if q % 2 = 0 then q else q + 1

theorem roundHalfEven_bounds {num den : Nat} (h : 0 < den) :
    2 * num ≤ 2 * (den * roundHalfEven num den) + den ∧
      2 * (den * roundHalfEven num den) ≤ 2 * num + den := by
  have hd := Nat.div_add_mod num den
  have hr := Nat.mod_lt num h
  have hs : den * (num / den + 1) = den * (num / den) + den := by
    rw [Nat.mul_add, Nat.mul_one]
  unfold roundHalfEven
  simp only
  split
  · omega
  · split
    · omega
    · split <;> omega

/-- A non-negative number m · 2^(-e), exactly. -/
structure Dyadic where
  mantissa : Nat
  negExponent : Nat

/-- The nearest double precision number to a fraction below 2⁶⁵: 53 significant bits, a tie going
to the even neighbour.  Fractions this large or this coarse never reach the subnormal range. -/
def Dyadic.nearest (num den : Nat) : Dyadic :=
  if num = 0 then ⟨0, 0⟩
  else
    let whole := num / den
    if whole = 0 then
      -- Scale up until the quotient has its 53 bits.
      let shift := 53 + Nat.log2 (den / num)
      let shift := if num * Nat.pow 2 shift / den < Nat.pow 2 52 then shift + 1 else shift
      let shift := if Nat.pow 2 53 ≤ num * Nat.pow 2 shift / den then shift - 1 else shift
      ⟨roundHalfEven (num * Nat.pow 2 shift) den, shift⟩
    else
      let bits := Nat.log2 whole + 1
      if bits ≤ 53 then
        let shift := 53 - bits
        ⟨roundHalfEven (num * Nat.pow 2 shift) den, shift⟩
      else
        let drop := bits - 53
        ⟨roundHalfEven num (den * Nat.pow 2 drop) * Nat.pow 2 drop, 0⟩

/-- The double precision number of seconds in a duration. -/
def secondsOf (secs nanos : Nat) : Dyadic :=
  let whole := Dyadic.nearest secs 1
  let part := Dyadic.nearest nanos 1000000000
  let common := max whole.negExponent part.negExponent
  Dyadic.nearest
    (whole.mantissa * Nat.pow 2 (common - whole.negExponent)
      + part.mantissa * Nat.pow 2 (common - part.negExponent))
    (Nat.pow 2 common)

/-- A duration in seconds with one decimal. -/
def showSeconds (secs nanos : Nat) : String :=
  let d := secondsOf secs nanos
  let tenths := roundHalfEven (d.mantissa * 10) (Nat.pow 2 d.negExponent)
  toString (tenths / 10) ++ "." ++ toString (tenths % 10)

end SuiteGate.Text
