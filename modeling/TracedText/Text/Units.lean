import TracedText.Text.Basic

/-! # Columns in UTF-16 code units

Position maps count columns in UTF-16 code units, in which a character beyond the Basic
Multilingual Plane takes two. `Text.unitColumn` measures a stretch of text in units, and
`Text.offsetOfUnits` finds the offset that many units on; a column inside a character resolves to
the end of that character. -/

namespace TracedText

/-- The number of code units of a character. -/
def unitWidth (c : Char) : Nat := if c.val > 0xFFFF then 2 else 1

namespace Text

/-- The number of code units of a text. -/
def units : Text → Nat
  | [] => 0
  | c :: rest => unitWidth c + units rest

@[simp] theorem units_nil : units [] = 0 := rfl

@[simp] theorem units_cons (c : Char) (t : Text) : units (c :: t) = unitWidth c + units t := rfl

theorem units_append (s t : Text) : units (s ++ t) = units s + units t := by
  induction s with
  | nil => simp
  | cons c s ih =>
      rw [List.cons_append, units_cons, units_cons, ih]
      omega

/-- The width in code units of the text from `start` up to `offset`. -/
def unitColumn (t : Text) (start offset : Int) : Nat := units (t.slice start offset)

/-- The number of characters that cover the given code units; units beyond the end of the text
count as one character each. -/
def advance : Int → Text → Int
  | width, [] => max width 0
  | width, c :: rest => if width ≤ 0 then 0 else 1 + advance (width - unitWidth c) rest

/-- The offset `width` code units on from `start`. -/
def offsetOfUnits (t : Text) (start width : Int) : Except OutOfText Int :=
  if width ≤ 0 then .ok start
  else do return start + advance width (← t.onward start)

end Text

end TracedText
