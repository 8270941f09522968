-- SUMMARY: Floats with two decimal places, rounded once from the exact value.
import LinearProbing.Decimal.Binary

/-! # A fixed number of decimal places

The exact value of a float is rounded once to the wanted number of places; a value halfway between
two neighbours goes to the one with an even last digit.
-/

namespace LinearProbing.Decimal

/-- The quotient rounded to the nearest natural number, halves to the even one. -/
def roundDiv (num den : Nat) : Nat :=
  let below := num / den
  let rest := 2 * (num % den)
  if den < rest || (rest == den && below % 2 == 1) then below + 1 else below

/-- A count of hundredths with two digits after the point. -/
def hundredths (n : Nat) : String :=
  toString (n / 100) ++ "." ++ String.ofList [Nat.digitChar (n % 100 / 10), Nat.digitChar (n % 10)]

/-- The text of a float with two decimal places. -/
def twoPlaces (x : Float) : String :=
  (Reading.ofFloat x).render fun b => hundredths (roundDiv (100 * b.numerator) b.denominator)

end LinearProbing.Decimal
