import TracedText.Map.Document
import TracedText.Map.Entry
import TracedText.Map.Segment

/-! # Encoding a map

`Document.ofEntries` builds the document of a list of entries. The entries are taken in the order of
their generated positions. Each source and each name is listed once, in the order of first use, and
an entry becomes a segment with one field, four or five: without a source, without a name, or with
both. An empty name counts as none. -/

namespace TracedText

/-- The failure of encoding an entry that has a source and no full position in it. -/
structure NoSourcePosition where
  line : Nat
  column : Nat
deriving DecidableEq, Repr

/-- What the failure is told as. -/
def NoSourcePosition.message (e : NoSourcePosition) : Message :=
  ["Entry at ", e.line, ":", e.column, " has a source but no original position"]

namespace Entry
variable (entry : Entry)

/-- The name that an entry adds to the table: that of an entry with a source, unless it is empty. -/
def usedName : Option String :=
  match entry.source, entry.name with
  | some _, some name => if name.toList.isEmpty then none else some name
  | _, _ => none

/-- The segment of an entry, with sources and names looked up in the tables. -/
def toSegment (sources names : List String) : Except NoSourcePosition Segment :=
  match entry.source, entry.sourceLine, entry.sourceColumn with
  | none, _, _ => .ok ⟨entry.column, none⟩
  | some source, some line, some column =>
    .ok ⟨entry.column,
      some ⟨sources.idxOf source, line - 1, column, entry.usedName.map (names.idxOf ·)⟩⟩
  | some _, _, _ => .error ⟨entry.line, entry.column⟩

end Entry

/-- The spellings of the segments of one line, and the cursor behind them. -/
def Cursor.encodeLine (c : Cursor) : List Segment → List Text × Cursor
  | [] => ([], c)
  | s :: rest =>
    let (texts, last) := (c.after s).encodeLine rest
    (Vlq.encode (c.fields s) :: texts, last)

/-- The texts of the lines. -/
def Cursor.encodeLines (c : Cursor) : List (List Segment) → List Text
  | [] => []
  | line :: rest =>
    let (texts, last) := c.nextLine.encodeLine line
    [','].intercalate texts :: last.encodeLines rest

/-- The values of a list without repetitions, in the order of their first occurrence. -/
def firstUses : List String → List String
  | [] => []
  | value :: rest => value :: (firstUses rest).filter (· != value)

namespace Document

/-- The greatest generated line of the entries, and one at least. -/
def lineCount (entries : List Entry) : Nat := entries.foldl (fun n entry => max n entry.line) 1

/-- The sources of the entries in the order of first use. -/
def sourceTable (entries : List Entry) : List String := firstUses (entries.filterMap (·.source))

/-- The names of the entries in the order of first use. -/
def nameTable (entries : List Entry) : List String := firstUses (entries.filterMap (·.usedName))

/-- The segments of the entries, each with its generated line. -/
def segments (entries : List Entry) : Except NoSourcePosition (List (Nat × Segment)) :=
  entries.mapM fun entry => do
    return (entry.line, ← entry.toSegment (sourceTable entries) (nameTable entries))

/-- The segments of each line from the first to the last. -/
def byLine (count : Nat) (segments : List (Nat × Segment)) : List (List Segment) :=
  (List.range' 1 count).map fun line =>
    (segments.filter fun s => s.1 == line).map (·.2)

/-- The document of the entries. -/
def ofEntries (entries : List Entry) (file sourceRoot : String) :
    Except NoSourcePosition Document := do
  let ordered := Entry.sort entries
  let segments ← segments ordered
  let lines := byLine (lineCount ordered) segments
  return ⟨file, sourceRoot, sourceTable ordered, nameTable ordered,
    [';'].intercalate (Cursor.start.encodeLines lines)⟩

end Document

end TracedText
