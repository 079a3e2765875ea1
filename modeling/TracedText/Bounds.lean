/-! # Bounds

Numbers and values have no bounds of their own, but what is put into words or followed step by step
has: a number is written and read with so many digits at most, and what is nested is followed to so
many levels at most. -/

namespace TracedText.Bounds

/-- The most decimal digits that a number is read with and put into words with. -/
def digits : Nat := 4300

/-- The most levels of what is nested that are followed, where no closer bound is given. This is an
assumption: the bound is what the callers have left of the stack, here those of one program that
reads its input a few calls deep. -/
def levels : Nat := 988

end TracedText.Bounds
