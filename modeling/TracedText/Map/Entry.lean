import TracedText.Message

/-! # Map entries

An entry of a position map ties a generated position to the position in a source that it came from.
Lines are counted from one and columns from zero. `Entry.make` checks the generated position;
`Entry.sort` puts entries in the order of their generated positions and leaves those at one
position in the order given. -/

namespace TracedText

/-- A generated position and, as far as it is known, the position in a source it came from. -/
structure Entry where
  line : Nat
  column : Nat
  source : Option String
  sourceLine : Option Int
  sourceColumn : Option Int
  name : Option String
  one_le_line : 1 ≤ line
deriving DecidableEq, Repr

/-- The ways in which a generated position fails to be one. -/
inductive EntryError where
  | lineTooSmall (line : Int)
  | negativeColumn (column : Int)
deriving DecidableEq, Repr

/-- What the failure is told as. -/
def EntryError.message : EntryError → Message
  | .lineTooSmall line => ["generated_line must be >= 1, got ", line]
  | .negativeColumn column => ["generated_column must be >= 0, got ", column]

namespace Entry

/-- The entry of a generated position, if it is one. -/
def make (line column : Int) (source : Option String) (sourceLine sourceColumn : Option Int)
    (name : Option String) : Except EntryError Entry :=
  if h : line < 1 then .error (.lineTooSmall line)
  else if column < 0 then .error (.negativeColumn column)
  else .ok ⟨line.toNat, column.toNat, source, sourceLine, sourceColumn, name, by omega⟩

/-- An entry that only has a generated position. -/
def bare (line column : Nat) (one_le_line : 1 ≤ line) : Entry :=
  ⟨line, column, none, none, none, none, one_le_line⟩

/-- The generated position of the first entry is not behind that of the second. -/
def le (a b : Entry) : Bool := a.line < b.line || (a.line == b.line && a.column ≤ b.column)

/-- The entries in the order of their generated positions. -/
def sort (entries : List Entry) : List Entry := entries.mergeSort le

end Entry

end TracedText
