import TracedText.Decimal.Binary64

/-! # Shortest decimals

Of the decimal numbers that read back as a given double, the shortest is the one with the fewest
digits and, among those with as few, the nearest. `shortestDecimal` finds it in exact arithmetic:
for one digit, two digits and so on it tries the two neighbours of the number on that decimal grid,
and takes the first grid on which one lies in the interval of numbers that read back. -/

namespace TracedText

/-- A decimal number: a first digit in front of the point, the others behind it, and a power of
ten. -/
structure Scientific where
  digits : Nat
  exponent : Int
deriving DecidableEq, Repr

/-- The numbers that round to one double, in quarter units of its last place: the double itself at
`4 * significand`, the ends of the interval on both sides, and whether they belong to it. -/
structure RoundingInterval where
  low : Nat
  middle : Nat
  high : Nat
  closed : Bool
deriving DecidableEq, Repr

/-- The interval of a positive double. Below a power of two the doubles lie twice as dense. -/
def RoundingInterval.ofSignificand (significand : Nat) (exponent : Int) : RoundingInterval :=
  let gap := if significand = Nat.pow 2 52 && exponent != -1074 then 1 else 2
  ⟨4 * significand - gap, 4 * significand, 4 * significand + 2, significand % 2 == 0⟩

/-- Whether a number lies in the interval; it is `point` times the unit `num / den`. -/
def RoundingInterval.contains (i : RoundingInterval) (num den point : Nat) : Bool :=
  let scaled := point * num
  if i.closed then i.low * den ≤ scaled && scaled ≤ i.high * den
  else i.low * den < scaled && scaled < i.high * den

/-- The decimal exponent of a positive ratio that is neither below `10 ^ -400` nor zero. -/
def decimalExponent (num den : Nat) : Int := (digitCount (num * Nat.pow 10 400 / den) : Int) - 401

/-- The decimal with the given number of digits that lies in the interval, if there is one; of two
the nearer, and of two equally near the even one. The unit of the interval is
`2 ^ (exponent - 2)`. -/
def RoundingInterval.decimal? (i : RoundingInterval) (exponent : Int) (count : Nat) :
    Option Scientific :=
  let value := divPowTwo i.middle 1 (2 - exponent)
  let leading := decimalExponent value.1 value.2
  let power := leading - (count - 1)
  let scaled := divPowTen value.1 value.2 power
  let unit := divPowTwo 1 1 (exponent - 2)
  let grid := divPowTen unit.1 unit.2 (-power)
  let below := scaled.1 / scaled.2
  let inside (n : Nat) : Bool := i.contains grid.1 grid.2 n
  let chosen :=
    match inside below, inside (below + 1) with
    | true, true => some (roundHalfEven scaled.1 scaled.2)
    | true, false => some below
    | false, true => some (below + 1)
    | false, false => none
  chosen.map fun n =>
    if n = Nat.pow 10 count then ⟨Nat.pow 10 (count - 1), leading + 1⟩ else ⟨n, leading⟩

/-- The shortest decimal that reads back as the positive double. -/
def shortestDecimal (significand : Nat) (exponent : Int) : Scientific :=
  let interval := RoundingInterval.ofSignificand significand exponent
  ((List.range' 1 17).findSome? (interval.decimal? exponent)).getD ⟨0, 0⟩

end TracedText
