-- SUMMARY: Reading a float as an exact binary fraction.
/-! # Floats as exact binary fractions

A float is not a number, an infinity, or a signed fraction `mantissa * 2 ^ exponent`. Text is
computed from that fraction in exact arithmetic.
-/

namespace LinearProbing.Decimal

/-- The fraction `mantissa * 2 ^ exponent`, with the grid of floats around it: `evenSpacing` says
that the float below is as far away as the float above. -/
structure Binary where
  mantissa : Nat
  exponent : Int
  evenSpacing : Bool

/-- What the sixty-four bits of a float stand for. -/
inductive Reading
  | notANumber
  | infinite (negative : Bool)
  | finite (negative : Bool) (value : Binary)

namespace Binary

/-- The fraction with the given exponent and fraction fields; a zero exponent field has no hidden
leading bit. -/
def ofFields (exponent fraction : Nat) : Binary :=
  if exponent = 0 then
    { mantissa := fraction, exponent := -1074, evenSpacing := true }
  else
    { mantissa := 0x10000000000000 + fraction
      exponent := (exponent : Int) - 1075
      evenSpacing := fraction != 0 || exponent == 1 }

/-- The numerator of the fraction over `denominator`. -/
def numerator (b : Binary) : Nat := b.mantissa * Nat.pow 2 b.exponent.toNat

def denominator (b : Binary) : Nat := Nat.pow 2 (-b.exponent).toNat

end Binary

/-- Reads the sign, exponent and fraction fields of a float. -/
def Reading.ofFloat (x : Float) : Reading :=
  let bits := x.toBits
  let negative := bits >>> 63 == 1
  let exponent := ((bits >>> 52) &&& 0x7ff).toNat
  let fraction := (bits &&& 0xfffffffffffff).toNat
  if exponent = 2047 then
    if fraction = 0 then .infinite negative else .notANumber
  else
    .finite negative (.ofFields exponent fraction)

/-- The texts of the values that have no digits, and the sign in front of those that have. -/
def Reading.render (digits : Binary → String) : Reading → String
  | .notANumber => "NaN"
  | .infinite negative => if negative then "-inf" else "inf"
  | .finite negative value => if negative then "-" ++ digits value else digits value

end LinearProbing.Decimal
