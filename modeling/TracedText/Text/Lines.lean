import TracedText.Bisect
import TracedText.RangeError
import TracedText.Text.Basic

/-! # Lines and positions

A line ends at a carriage return, at a line feed, or at the pair of both in this order, which
counts once. `Text.lineStarts` lists where the lines start; a `LineTable` keeps this list and
converts between offsets and (line, column) positions. A `Numbering` says from which numbers lines
and columns are counted. -/

namespace TracedText

namespace Text

/-- The offsets at which lines start behind the terminators of the text, its own first character
being at offset `n`. -/
def startsFrom : Nat → Text → List Nat
  | _, [] => []
  | n, '\r' :: '\n' :: rest => (n + 2) :: startsFrom (n + 2) rest
  | n, c :: rest =>
    if isTerminator c then (n + 1) :: startsFrom (n + 1) rest else startsFrom (n + 1) rest

/-- The offsets at which the lines of the text start; the first is always zero. -/
def lineStarts (t : Text) : List Nat := 0 :: startsFrom 0 t

end Text

/-! ### Numberings and positions -/

/-- The numbers given to the first line and the first column. -/
structure Numbering where
  lineBase : Int
  columnBase : Int
deriving DecidableEq, Repr

/-- Lines and columns counted from zero. -/
def Numbering.zero : Numbering := ⟨0, 0⟩

/-- Lines counted from one and columns from zero, as position maps count them. -/
def Numbering.oneBasedLines : Numbering := ⟨1, 0⟩

/-- The numbering with the given bases in place of its own. -/
def Numbering.withBases (n : Numbering) (lineBase columnBase : Option Int) : Numbering :=
  ⟨lineBase.getD n.lineBase, columnBase.getD n.columnBase⟩

/-- A line and a column in some numbering. -/
structure Position where
  line : Int
  column : Int
deriving DecidableEq, Repr

/-! ### Line tables -/

/-- The line starts of one text, with its length and the numbering of its positions. -/
structure LineTable where
  numbering : Numbering
  length : Nat
  starts : List Nat
deriving DecidableEq, Repr

namespace LineTable

/-- The table of a text. -/
def ofText (t : Text) (numbering : Numbering) : LineTable :=
  ⟨numbering, t.length, t.lineStarts⟩

variable (table : LineTable)

/-- The number of lines. -/
def lineCount : Nat := table.starts.length

/-- The line starts up to an offset. -/
def startsUpTo (offset : Nat) : List Nat :=
  table.starts.take (bisect (fun start => start ≤ offset) table.starts)

/-- The number of lines that start in front of the line of an offset. An offset at which a line
starts belongs to that line. -/
def lineIndex (offset : Nat) : Nat := (table.startsUpTo offset).length - 1

/-- The start of the line of an offset. -/
def lineStart (offset : Nat) : Nat := (table.startsUpTo offset).getLastD 0

/-- The position of an offset. One past the end of the text lies on the last line, in a column
beyond its length. -/
def positionOf (offset : Int) : Except RangeError Position :=
  if offset < 0 then .error (.negativeOffset offset)
  else
    .ok ⟨table.lineIndex offset.toNat + table.numbering.lineBase,
      offset - table.lineStart offset.toNat + table.numbering.columnBase⟩

/-- The offset of a position. A line past the last one and a column past the end give the length
of the text; what lies in front of the text gives zero. -/
def offsetOf (line column : Int) : Nat :=
  let index := line - table.numbering.lineBase
  if index < 0 then 0
  else
    match table.starts[index.toNat]? with
    | none => table.length
    | some start => min (start + (column - table.numbering.columnBase)).toNat table.length

end LineTable

end TracedText
