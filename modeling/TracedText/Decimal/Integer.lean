import TracedText.Text.Basic

/-! # Integers in decimal

`integerText` writes an integer with the least number of digits, a minus sign in front of a
negative one. -/

namespace TracedText

/-- The decimal digits of an integer, behind a minus sign when it is negative. -/
def integerText (n : Int) : Text :=
  if n < 0 then '-' :: Nat.toDigits 10 n.natAbs else Nat.toDigits 10 n.natAbs

/-- The number of decimal digits of a number; zero has none. -/
def digitCount (n : Nat) : Nat := if n = 0 then 0 else (Nat.toDigits 10 n).length

end TracedText
