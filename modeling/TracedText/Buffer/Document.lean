import TracedText.Buffer.Basic
import TracedText.Map.Encode
import TracedText.Text.Lines
import TracedText.Text.Units
import TracedText.Warning

/-! # The map of a buffer

`Buffer.toDocument` writes the points of a buffer as a map document: each offset becomes a line,
counted from one, and a column in UTF-16 code units. Points that are not in order are put in order
first, with a warning. -/

namespace TracedText

/-- The ways in which the points of a buffer fail to make a map. -/
inductive TraceError where
  | range (error : RangeError)
  | position (error : NoSourcePosition)
deriving DecidableEq, Repr

/-- What the failure is told as. -/
def TraceError.message : TraceError → Message
  | .range error => error.message
  | .position error => error.message

/-- The entry of a point at an offset of a text with the given lines. An empty name is none. -/
def Point.toEntry (table : LineTable) (text : Text) (p : Point) : Except RangeError Entry :=
  if p.offset < 0 then .error (.negativeOffset p.offset)
  else
    let offset := p.offset.toNat
    .ok ⟨table.lineIndex offset + 1, text.unitColumn (table.lineStart offset) offset,
      p.source, p.line, p.column, if p.name.toList.isEmpty then none else some p.name,
      Nat.le_add_left 1 _⟩

namespace Buffer
variable (b : Buffer)

/-- The entries of the points, in the order of their offsets. -/
def entries : Except RangeError (List Entry) :=
  let table := LineTable.ofText b.text .oneBasedLines
  let points := if Point.inOrder b.points then b.points else Point.sort b.points
  points.mapM (·.toEntry table b.text)

/-- The warnings of making the map of a file. -/
def orderWarnings (file : String) : List Warning :=
  if Point.inOrder b.points then [] else [.outOfOrder file]

/-- The map document of the buffer as the content of a file. -/
def toDocument (file : String) : Except TraceError Document := do
  let entries ← b.entries.mapError .range
  (Document.ofEntries entries file "").mapError .position

end Buffer

end TracedText
