import TracedText.Text.Basic

/-! # Widening a range to whole lines

The scans here move a position over the spaces and tabs next to it and over one line terminator.
`Text.lineExtent` puts them together: it widens a range over the blanks in front of it, the blanks
after it and the terminator that follows, so that removing the range leaves no blank line. -/

namespace TracedText.Text
variable (t : Text)

/-- Moves a position back over the blanks in front of it. -/
def blankStart (pos : Int) : Except OutOfText Int :=
  if pos ≤ 0 then .ok pos
  else if pos ≤ t.length then
    .ok (pos - ((t.take pos.toNat).reverse.takeWhile isBlank).length)
  else .error ⟨pos - 1⟩

/-- Moves a position on over the blanks at it. -/
def blankEnd (pos : Int) : Except OutOfText Int :=
  if (t.length : Int) ≤ pos then .ok pos
  else do
    let rest ← t.onward pos
    return pos + (rest.takeWhile isBlank).length

/-- Moves a position over one terminator, if one stands there. A carriage return and the line
feed after it are one terminator. -/
def skipTerminator (pos : Int) : Except OutOfText Int :=
  if ['\r', '\n'].isPrefixOf (t.sliceFrom pos) then .ok (pos + 2)
  else if (t.length : Int) ≤ pos then .ok pos
  else do
    let c ← t.charAt pos
    return if isTerminator c then pos + 1 else pos

/-- Moves a position over the blanks at it and the terminator after them. -/
def nextLine (pos : Int) : Except OutOfText Int := do
  t.skipTerminator (← t.blankEnd pos)

/-- The range widened over the blanks on both sides and the terminator that follows. -/
def lineExtent (start stop : Int) : Except OutOfText (Int × Int) := do
  let first ← t.blankStart start
  let last ← t.nextLine stop
  return (first, last)

end TracedText.Text
