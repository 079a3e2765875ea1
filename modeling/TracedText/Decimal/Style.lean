import TracedText.Decimal.Shortest

/-! # Writing doubles

A double is written with the digits of its shortest decimal. A `FloatStyle` holds the rest of the
decisions: which decimal exponents are written with a point in place of a power of ten, how a power
of ten is spelled, and the words for what is no number. -/

namespace TracedText

/-- How doubles are spelled. -/
structure FloatStyle where
  /-- The least decimal exponent written without a power of ten. -/
  leastPlain : Int
  /-- The greatest decimal exponent written without a power of ten. -/
  greatestPlain : Int
  /-- What stands in front of a power of ten that is not negative. -/
  plusSign : Text
  /-- The least number of digits of a power of ten. -/
  powerWidth : Nat
  /-- The spelling of what is not a number. -/
  nan : Text
  /-- The spelling of infinity. -/
  infinity : Text
  /-- The spelling of infinity below zero. -/
  minusInfinity : Text
deriving DecidableEq, Repr

namespace FloatStyle
variable (style : FloatStyle)

/-- A power of ten behind its mark. -/
def power (exponent : Int) : Text :=
  let digits := Nat.toDigits 10 exponent.natAbs
  'e' :: ((if exponent < 0 then ['-'] else style.plusSign) ++
    (List.replicate (style.powerWidth - digits.length) '0' ++ digits))

/-- The decimal in words: with its point in place and at least one digit on both sides of it when
its exponent is written plainly, and else with a power of ten. -/
def decimal (d : Scientific) : Text :=
  let digits := Nat.toDigits 10 d.digits
  if style.leastPlain ≤ d.exponent && d.exponent ≤ style.greatestPlain then
    if d.exponent < 0 then
      '0' :: '.' :: (List.replicate (-d.exponent - 1).toNat '0' ++ digits)
    else
      let whole := (d.exponent + 1).toNat
      if digits.length ≤ whole then
        digits ++ (List.replicate (whole - digits.length) '0' ++ ['.', '0'])
      else digits.take whole ++ '.' :: digits.drop whole
  else
    match digits with
    | [only] => only :: style.power d.exponent
    | first :: rest => first :: '.' :: (rest ++ style.power d.exponent)
    | [] => []

/-- The double in words. -/
def text : Binary64 → Text
  | .nan => style.nan
  | .infinite negative => if negative then style.minusInfinity else style.infinity
  | .finite negative significand exponent =>
    let size :=
      if significand = 0 then ['0', '.', '0']
      else style.decimal (shortestDecimal significand exponent)
    if negative then '-' :: size else size

/-- The spelling in messages: powers of ten from sixteen up and from minus five down, with a sign
and two digits. -/
def message : FloatStyle :=
  ⟨-4, 15, ['+'], 2, "nan".toList, "inf".toList, "-inf".toList⟩

/-- The spelling of a lenient document: as in messages, with the words that such a document has for
what is no number. -/
def lenient : FloatStyle :=
  ⟨-4, 15, ['+'], 2, "NaN".toList, "Infinity".toList, "-Infinity".toList⟩

/-- The spelling of a strict document: powers of ten without a plus sign or filling, and `null` for
what is no number. -/
def strict : FloatStyle :=
  ⟨-5, 15, [], 1, "null".toList, "null".toList, "null".toList⟩

end FloatStyle

end TracedText
