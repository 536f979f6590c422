/-!
# Fixed decimal places

A ratio of natural numbers with a fixed number of places after the point, rounded
to the nearest such decimal. A ratio midway between two goes to the even one.
-/

namespace Graft.Decimal

/-- The nearest natural number to a ratio, the even one of two that are equally
    near. -/
def roundedRatio (numerator denominator : Nat) : Nat :=
  let under := numerator / denominator
  let twice := 2 * (numerator % denominator)
  if twice < denominator ∨ twice = denominator ∧ under % 2 = 0 then under else under + 1

/-- A ratio with so many places. Without any there is no point either. -/
def fixed (places numerator denominator : Nat) : String :=
  let digits := (toString (roundedRatio (numerator * Nat.pow 10 places) denominator)).toList
  let digits := List.replicate (places + 1 - digits.length) '0' ++ digits
  let whole := digits.length - places
  if places = 0 then String.ofList digits
  else String.ofList (digits.take whole ++ '.' :: digits.drop whole)

example : fixed 2 12345 1000 = "12.34" := by decide +kernel
example : fixed 2 1 200 = "0.00" := by decide +kernel
example : fixed 0 7 2 = "4" := by decide +kernel

end Graft.Decimal
