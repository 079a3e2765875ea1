import TracedText.Buffer.Storage
import TracedText.Map.Index

/-! # Source files

A source file is a text that is not edited but asked where its offsets came from. It keeps its
marker, if it has one, and the index of its map, if there is one. -/

namespace TracedText

/-- A text, the path it was loaded from, and the index of its map. -/
structure SourceFile where
  path : Option Path
  code : Text
  index : Option MapIndex
deriving DecidableEq, Repr

namespace SourceFile

/-- The path of the map of a text at a path: the one that is given, or else the one that the marker
of the text names. -/
def mapPath? (p : Path) (map : Option Path) (code : Text) : Except LoadError (Option Path) :=
  match map, Marker.find? code with
  | some map, _ => .ok (some map)
  | none, none => .ok none
  | none, some m => (m.target p).map some

/-- The source file at a path, with the map that is given or the one that its marker names. -/
def load (d : Disk) (dialect : Json.Dialect) (p : Path) (map : Option Path) :
    Except LoadError SourceFile := do
  let code ← loadText d p
  match ← mapPath? p map code with
  | none => return ⟨some p, code, none⟩
  | some target => return ⟨some p, code, some (.ofEntries (← loadEntries d dialect target))⟩

variable (f : SourceFile)

/-- The lines of the text, counted from one. -/
def lines : LineTable := .ofText f.code .oneBasedLines

/-- The entry that covers an offset. Without a map no offset has one. -/
def trace? (offset : Int) : Except RangeError (Option Entry) :=
  match f.index with
  | none => .ok none
  | some index => do
    let position ← f.lines.positionOf offset
    let column := f.code.unitColumn (offset - position.column) offset
    return index.find? position.line column

end SourceFile

end TracedText
