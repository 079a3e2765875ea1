import TracedText.Decimal.Integer

/-! # Double-precision numbers

A `Binary64` is a value of the double-precision binary format, kept as a whole significand and a
power of two, so that equality of values is equality of terms. `Binary64.ofRatio` rounds a ratio of
natural numbers to the nearest such value, a tie going to the even significand, and
`Binary64.ofDecimal` does so for a decimal number. Only natural-number arithmetic is used. -/

namespace TracedText

/-- A double-precision number. A finite one is `significand * 2 ^ exponent`, where the significand
is below `2 ^ 53` and at least `2 ^ 52` unless the exponent is `-1074`. -/
inductive Binary64 where
  | nan
  | infinite (negative : Bool)
  | finite (negative : Bool) (significand : Nat) (exponent : Int)
deriving DecidableEq, Repr

/-- A ratio divided by a power of two, as numerator and denominator. -/
def divPowTwo (num den : Nat) (exponent : Int) : Nat × Nat :=
  if 0 ≤ exponent then (num, den * Nat.pow 2 exponent.toNat)
  else (num * Nat.pow 2 (-exponent).toNat, den)

/-- A ratio divided by a power of ten, as numerator and denominator. -/
def divPowTen (num den : Nat) (exponent : Int) : Nat × Nat :=
  if 0 ≤ exponent then (num, den * Nat.pow 10 exponent.toNat)
  else (num * Nat.pow 10 (-exponent).toNat, den)

/-- The whole number nearest to a ratio; of two equally near the even one. -/
def roundHalfEven (num den : Nat) : Nat :=
  let quotient := num / den
  let twice := 2 * (num % den)
  if den < twice || (den == twice && quotient % 2 == 1) then quotient + 1 else quotient

namespace Binary64

/-- The zero of a sign. -/
def zero (negative : Bool) : Binary64 := .finite negative 0 (-1074)

/-- The number is zero, whatever its sign. -/
def isZero : Binary64 → Bool
  | .finite _ 0 _ => true
  | _ => false

/-- The exponent at which a ratio has a significand of 53 bits, or the least exponent if the ratio
is too small for that. -/
def exponentOf (num den : Nat) : Int :=
  let guess : Int := (Nat.log2 num : Int) - Nat.log2 den - 52
  let scaled := divPowTwo num den guess
  max (if scaled.1 / scaled.2 < Nat.pow 2 52 then guess - 1 else guess) (-1074)

/-- The number nearest to a ratio; of two equally near the one with the even significand. What
exceeds the greatest finite number by half a unit or more is infinite. -/
def ofRatio (negative : Bool) (num den : Nat) : Binary64 :=
  if num = 0 then zero negative
  else
    let exponent := exponentOf num den
    let scaled := divPowTwo num den exponent
    let rounded := roundHalfEven scaled.1 scaled.2
    let (significand, exponent) :=
      if rounded = Nat.pow 2 53 then (Nat.pow 2 52, exponent + 1) else (rounded, exponent)
    if 971 < exponent then .infinite negative else .finite negative significand exponent

/-- The number nearest to `digits * 10 ^ power`. Powers that lead out of the range of the format
are settled by the number of digits alone. -/
def ofDecimal (negative : Bool) (digits : Nat) (power : Int) : Binary64 :=
  let size := digitCount digits + power
  if digits = 0 || size < -330 then zero negative
  else if 320 < size then .infinite negative
  else
    let ratio := divPowTen digits 1 (-power)
    ofRatio negative ratio.1 ratio.2

/-- The whole number that a double equals, if there is one. -/
def toInt? : Binary64 → Option Int
  | .finite negative significand exponent =>
    let scaled := divPowTwo significand 1 (-exponent)
    if scaled.1 % scaled.2 = 0 then
      let size : Int := (scaled.1 / scaled.2 : Nat)
      some (if negative then -size else size)
    else none
  | _ => none

end Binary64

end TracedText
