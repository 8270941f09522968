-- SUMMARY: The fewest decimal digits that read back as the same float, and their written forms.
import LinearProbing.Decimal.Binary

/-! # The fewest digits that read back

A float is written with the shortest decimal that lies in its rounding interval, the reals that
round to it. Of two such decimals of the same length the nearer one is taken, and an exact tie
goes up.
-/

namespace LinearProbing.Decimal

/-- The decimal number `digits * 10 ^ exponent`. -/
structure Scaled where
  digits : Nat
  exponent : Int
  deriving DecidableEq, Repr

namespace Binary

/-! ## The rounding interval

Both ends and the value itself are multiples of a quarter of the last binary place, so all three
are written as a natural number over `4 * denominator`. -/

/-- The midpoint between the value and the float above it. -/
def upperEnd (b : Binary) : Nat := (4 * b.mantissa + 2) * Nat.pow 2 b.exponent.toNat

/-- The midpoint between the value and the float below it. -/
def lowerEnd (b : Binary) : Nat :=
  (4 * b.mantissa - if b.evenSpacing then 2 else 1) * Nat.pow 2 b.exponent.toNat

/-- The ends of the interval round to the value exactly if its mantissa is even. -/
def endsIncluded (b : Binary) : Bool := b.mantissa % 2 == 0

/-- Whether the fraction `num / den` rounds to the value. -/
def contains (b : Binary) (num den : Nat) : Bool :=
  let scaled := num * (4 * b.denominator)
  let lower := b.lowerEnd * den
  let upper := b.upperEnd * den
  if b.endsIncluded then lower ≤ scaled && scaled ≤ upper else lower < scaled && scaled < upper

end Binary

/-- The number of decimal digits of a natural number; one for zero. -/
def digitCount (n : Nat) : Nat := (Nat.toDigits 10 n).length

/-- The decimal order of `num / den`: the `p` with `10 ^ (p - 1) ≤ num / den < 10 ^ p`. -/
def order (num den : Nat) : Int :=
  let gap : Int := (digitCount num : Int) - digitCount den
  if den * Nat.pow 10 gap.toNat ≤ num * Nat.pow 10 (-gap).toNat then gap + 1 else gap

/-- The better of the value's two neighbours on the grid of multiples of `10 ^ exponent`, among
those that round to the value. -/
def Binary.onGrid? (b : Binary) (exponent : Int) : Option Scaled :=
  let unit := Nat.pow 10 exponent.toNat
  let parts := Nat.pow 10 (-exponent).toNat
  let num := b.numerator * parts
  let den := b.denominator * unit
  let below := num / den
  let up := 2 * (num % den) ≥ den
  let inBelow := b.contains (below * unit) parts
  let inAbove := b.contains ((below + 1) * unit) parts
  if inAbove && (up || !inBelow) then some ⟨below + 1, exponent⟩
  else if inBelow then some ⟨below, exponent⟩
  else none

/-- Tries grids of one digit more each time; `top` is the decimal order of the value. -/
def Binary.shortestFrom (b : Binary) (top : Int) : (attempts count : Nat) → Scaled
  | 0, count => ⟨0, top - count⟩
  | attempts + 1, count =>
    match b.onGrid? (top - count) with
    | some found => found
    | none => b.shortestFrom top attempts (count + 1)

/-- Removes the zeros at the end of the digits. -/
def Scaled.trim (s : Scaled) : Scaled :=
  if h : s.digits = 0 then ⟨0, 0⟩
  else if s.digits % 10 = 0 then Scaled.trim ⟨s.digits / 10, s.exponent + 1⟩
  else s
termination_by s.digits
decreasing_by exact Nat.div_lt_self (Nat.pos_of_ne_zero h) (by decide)

/-- The shortest decimal that rounds to the value. Seventeen digits always suffice. -/
def Binary.shortest (b : Binary) : Scaled :=
  if b.mantissa = 0 then ⟨0, 0⟩
  else (b.shortestFrom (order b.numerator b.denominator) 17 1).trim

/-! ## Written forms -/

/-- How a shortest decimal is laid out. -/
structure Style where
  /-- A whole number ends in a point and a zero. -/
  wholePoint : Bool
  /-- The powers of ten of the leading digit, from the first to below the second, for which the
  digits are written out in place; outside them an exponent follows. -/
  positional : Option (Int × Int)

namespace Style

/-- Always written out in place, whole numbers without a point. -/
def plain : Style := { wholePoint := false, positional := none }

/-- Recognisable as a float: a point or an exponent is always there, and numbers below a
ten-thousandth or from ten quadrillion on have an exponent. -/
def marked : Style := { wholePoint := true, positional := some (-4, 16) }

/-- The digits with the point `fractional` places before their end. -/
def insertPoint (digits : List Char) (fractional : Nat) : String :=
  let padded := List.replicate (fractional + 1 - digits.length) '0' ++ digits
  let whole := padded.take (padded.length - fractional)
  String.ofList whole ++ "." ++ String.ofList (padded.drop whole.length)

/-- The digits of `s` written out in place. -/
def inPlace (style : Style) (s : Scaled) : String :=
  let digits := Nat.toDigits 10 s.digits
  if s.exponent < 0 then insertPoint digits (-s.exponent).toNat
  else
    let whole := String.ofList (digits ++ List.replicate s.exponent.toNat '0')
    if style.wholePoint then whole ++ ".0" else whole

/-- One digit before the point and the power of ten after an `e`. -/
def withExponent (s : Scaled) : String :=
  let digits := Nat.toDigits 10 s.digits
  let power := s.exponent + digits.length - 1
  let front :=
    if digits.length ≤ 1 then String.ofList digits else insertPoint digits (digits.length - 1)
  front ++ "e" ++ toString power

/-- The text of a shortest decimal. -/
def write (style : Style) (s : Scaled) : String :=
  match style.positional with
  | none => style.inPlace s
  | some (first, stop) =>
    let power := s.exponent + digitCount s.digits - 1
    if s.digits = 0 || (first ≤ power && power < stop) then style.inPlace s else withExponent s

end Style

/-- The text of a float with the fewest digits that read back. -/
def shortest (style : Style) (x : Float) : String :=
  (Reading.ofFloat x).render fun b => style.write b.shortest

end LinearProbing.Decimal
