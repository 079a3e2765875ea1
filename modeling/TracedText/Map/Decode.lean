import TracedText.Map.Document
import TracedText.Map.Entry
import TracedText.Map.Segment

/-! # Decoding a map

`decodeMap` reads the entries of a JSON value that is a map document. The header is checked field by
field, then the segments are read from left to right with a cursor that sums up their fields. The
root of the sources stands in front of each of them, with a slash between. The entries come in the
order of their generated positions. -/

namespace TracedText

/-! ### The header -/

/-- The string at the index of a table, unless the index is outside of it. -/
def tableItem? (table : List (Option String)) (index : Int) : Option (Option String) :=
  if index < 0 then none else table[index.toNat]?

/-- The strings and gaps of a table; an absent table is empty. -/
def readTable (document : Json) (key : String) : Except FormatError (List (Option String)) :=
  match document.get? key with
  | none => .ok []
  | some (.arr items) =>
    items.mapM fun
      | .str s => .ok (some s)
      | .null => .ok none
      | item => .error (.tableItem key item)
  | some _ => .error (.table key)

/-- The value is the version of the format. -/
def isFormatVersion : Json → Bool
  | .int n => n == formatVersion
  | .float x => x.toInt? == some formatVersion
  | _ => false

/-- What stands in front of every source: nothing, or the root and a slash. -/
def readRoot (document : Json) : Except FormatError String :=
  match document.get? "sourceRoot" with
  | none => .ok ""
  | some value =>
    if value.isEmpty then .ok ""
    else
      match value with
      | .str root => .ok (if root.toList.getLast? == some '/' then root else root ++ "/")
      | _ => .error .sourceRoot

/-- The parts of a document that the mappings need. -/
structure Header where
  mappings : Text
  /-- The sources behind the root. -/
  sources : List (Option String)
  names : List (Option String)
deriving DecidableEq, Repr

/-- The header of a document. -/
def readHeader (document : Json) : Except FormatError Header := do
  let .obj _ := document | throw .notObject
  if (document.get? "sections").isSome then throw .sectioned
  let version := (document.get? "version").getD .null
  if !isFormatVersion version then throw (.version version)
  let some (.str mappings) := document.get? "mappings" | throw .mappings
  let root ← readRoot document
  let sources ← readTable document "sources"
  let names ← readTable document "names"
  return ⟨mappings.toList, sources.map (·.map (root ++ ·)), names⟩

/-! ### The mappings -/

section
variable (header : Header) (line : Nat) (one_le_line : 1 ≤ line)

/-- The segment that a text spells. -/
def readSegment (c : Cursor) (text : Text) : Except FormatError Segment :=
  match Vlq.decode text with
  | .error error => .error (.segment error)
  | .ok fields =>
    match c.segment? fields with
    | none => .error (.fieldCount text line fields.length)
    | some segment => .ok segment

/-- The name of a segment, if it has one. -/
def readName : Option Int → Except FormatError (Option String)
  | none => .ok none
  | some index =>
    match tableItem? header.names index with
    | none => .error (.nameIndex index line)
    | some name => .ok name

/-- The entry of a segment. -/
def Segment.toEntry (s : Segment) : Except FormatError Entry :=
  if s.column < 0 then .error (.column line)
  else
    match s.origin with
    | none => .ok (.bare line s.column.toNat one_le_line)
    | some o =>
      match tableItem? header.sources o.source with
      | none => .error (.sourceIndex o.source line)
      | some source => do
        let name ← readName header line o.name
        return ⟨line, s.column.toNat, source, some (o.line + 1), some o.column, name, one_le_line⟩

/-- The entries of one line, and the cursor behind them. -/
def decodeLine (c : Cursor) : List Text → Except FormatError (List Entry × Cursor)
  | [] => .ok ([], c)
  | text :: rest => do
    let segment ← readSegment line c text
    let entry ← segment.toEntry header line one_le_line
    let (entries, last) ← decodeLine (c.after segment) rest
    return (entry :: entries, last)

end

/-- The entries of the lines from the given one on; empty segments are left out. -/
def decodeLines (header : Header) (line : Nat) (one_le_line : 1 ≤ line) (c : Cursor) :
    List Text → Except FormatError (List Entry)
  | [] => .ok []
  | text :: rest => do
    let segments := (text.splitOn ',').filter fun segment => !segment.isEmpty
    let (entries, last) ← decodeLine header line one_le_line c.nextLine segments
    let others ← decodeLines header (line + 1) (Nat.le_add_left 1 line) last rest
    return entries ++ others

/-- The entries of a map document. -/
def decodeMap (document : Json) : Except FormatError (List Entry) := do
  let header ← readHeader document
  let entries ← decodeLines header 1 (Nat.le_refl 1) .start (header.mappings.splitOn ';')
  return Entry.sort entries

end TracedText
