/-! # Segments

Each entry of a position map is one segment of its encoding. A segment holds numbers in place of
texts: indexes into the tables of sources and of names, and a source line counted from zero. Its
fields are written relative to those of the segments before it, and a `Cursor` holds what they are
relative to. `Cursor.fields` and `Cursor.segment?` convert both ways. -/

namespace TracedText

/-- A position in a source by the index of the source, with the index of a name if it has one. -/
structure Segment.Origin where
  source : Int
  line : Int
  column : Int
  name : Option Int
deriving DecidableEq, Repr

/-- A generated column and the position in a source, if there is one. -/
structure Segment where
  column : Int
  origin : Option Segment.Origin
deriving DecidableEq, Repr

/-- The last value of each field. -/
structure Cursor where
  column : Int
  source : Int
  sourceLine : Int
  sourceColumn : Int
  name : Int
deriving DecidableEq, Repr

namespace Cursor

/-- The values in front of the first segment. -/
def start : Cursor := ⟨0, 0, 0, 0, 0⟩

variable (c : Cursor)

/-- The values at the start of the next line: generated columns start over. -/
def nextLine : Cursor := { c with column := 0 }

/-- The values behind a segment. -/
def after (s : Segment) : Cursor :=
  match s.origin with
  | none => { c with column := s.column }
  | some o => ⟨s.column, o.source, o.line, o.column, o.name.getD c.name⟩

/-- The fields of a segment, each relative to its last value. -/
def fields (s : Segment) : List Int :=
  (s.column - c.column) ::
    match s.origin with
    | none => []
    | some o =>
      [o.source - c.source, o.line - c.sourceLine, o.column - c.sourceColumn] ++
        match o.name with
        | none => []
        | some name => [name - c.name]

/-- The segment that has the given fields; there are one, four or five of them. -/
def segment? (fields : List Int) : Option Segment :=
  match fields with
  | [column] => some ⟨c.column + column, none⟩
  | [column, source, sourceLine, sourceColumn] =>
    some ⟨c.column + column,
      some ⟨c.source + source, c.sourceLine + sourceLine, c.sourceColumn + sourceColumn, none⟩⟩
  | [column, source, sourceLine, sourceColumn, name] =>
    some ⟨c.column + column,
      some ⟨c.source + source, c.sourceLine + sourceLine, c.sourceColumn + sourceColumn,
        some (c.name + name)⟩⟩
  | _ => none

@[simp] theorem segment?_fields (s : Segment) : c.segment? (c.fields s) = some s := by
  have h (a b : Int) : a + (b - a) = b := by omega
  obtain ⟨column, _ | ⟨source, line, sourceColumn, _ | name⟩⟩ := s <;> simp [fields, segment?, h]

end Cursor

end TracedText
