import TracedText.Json.Basic

/-! # Two dialects of JSON

Documents are written and read in one of two dialects. The strict one keeps to the standard: whole
numbers have sixty-four bits, doubles are finite, every surrogate has its partner, the bytes are
UTF-8 without a mark, and whatever else is met is not JSON. The lenient one has whole numbers of any
size, words for what is no number, surrogates that stand alone, and every Unicode encoding, and it
tells what it cannot read from what is not JSON.

Since a text has no surrogates, one that stands alone is read as the replacement character, and keys
that differ in such surrogates alone are read as the same key. How deeply nested a value the lenient
dialect follows is left to the stack, for which numbers are assumed here. -/

namespace TracedText.Json

/-- The decisions in which the dialects differ. -/
structure Dialect where
  /-- Whole numbers may lie outside the sixty-four-bit range; else such a number is refused in
  writing and read as a double. -/
  wideIntegers : Bool
  /-- The most digits that a whole number is read with. -/
  maxDigits : Option Nat
  /-- The most lists and objects inside one another that are read. -/
  readDepth : Nat
  /-- The most lists and objects inside one another that are written; without a bound the stack is
  assumed to be deep enough. -/
  writeDepth : Option Nat
  /-- `NaN`, `Infinity` and `-Infinity` are values, and a double may be too large to be finite. -/
  nonFinite : Bool
  /-- An escaped surrogate may stand alone, and is then read as the replacement character. -/
  loneSurrogates : Bool
  /-- The encoding is told from the first bytes; else it is UTF-8. -/
  guessesEncoding : Bool
  /-- The reasons why a document cannot be read are told apart; else it is not JSON whatever the
  reason. -/
  tellsReasons : Bool
  /-- How doubles are written. -/
  floats : FloatStyle
deriving DecidableEq, Repr

namespace Dialect

/-- The dialect that keeps to the standard. -/
def strict : Dialect := ⟨false, none, 1024, some 254, false, false, false, false, .strict⟩

/-- The dialect that accepts more than the standard. -/
def lenient : Dialect :=
  ⟨true, some Bounds.digits, Bounds.levels, none, true, true, true, true, .lenient⟩

end Dialect

/-- A whole number fits sixty-four bits, signed when negative and unsigned when not. -/
def fits64 (n : Int) : Bool := -0x8000000000000000 ≤ n && n < 0x10000000000000000

end TracedText.Json
