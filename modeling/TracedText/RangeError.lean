import TracedText.Message

/-! # Places outside the text

Every operation that takes an offset or a range checks it before anything changes. `RangeError`
lists the ways in which such a check fails, and `RangeError.message` tells each. -/

namespace TracedText

/-- The ways in which an offset or a range fails to lie in the text it is meant for. -/
inductive RangeError where
  /-- An offset in front of the text. -/
  | negativeOffset (offset : Int)
  /-- A point of a new buffer that is not in its text. -/
  | pointOutside (offset : Int) (length : Nat)
  /-- A slice whose bounds are out of order or outside the text. -/
  | slice (start stop : Int) (length : Nat)
  /-- A splice in front of the text. -/
  | spliceOffset (offset : Int)
  /-- A splice that replaces a negative number of characters. -/
  | spliceLength (count : Int)
  /-- A splice that runs past the end of the text. -/
  | spliceEnd (stop : Int) (length : Nat)
  /-- A deletion in front of the text. -/
  | deletionStart (start : Int)
  /-- A deletion that ends before it starts. -/
  | deletionEnd (start stop : Int)
  /-- A deletion outside the buffer, whose own text starts at `base`. -/
  | deletionOutside (start stop base : Int) (length : Nat)
deriving DecidableEq, Repr

/-- What the failure is told as. -/
def RangeError.message : RangeError → Message
  | .negativeOffset offset => ["offset must be >= 0, got ", offset]
  | .pointOutside offset length =>
    ["Mapping point offset ", offset, " outside text of length ", length]
  | .slice start stop length =>
    ["Invalid substring range [", start, ", ", stop, "] for text of length ", length]
  | .spliceOffset offset => ["Invalid splice offset ", offset]
  | .spliceLength count => ["Invalid splice length ", count]
  | .spliceEnd stop length =>
    ["Invalid splice end offset ", stop, " for text of length ", length]
  | .deletionStart start => ["Deletion.start must be >= 0, got ", start]
  | .deletionEnd start stop => ["Deletion.end (", stop, ") must be >= start (", start, ")"]
  | .deletionOutside start stop base length =>
    ["Deletion [", start, ", ", stop, ") outside buffer [", base, ", ", (base + length : Int), ")"]

end TracedText
