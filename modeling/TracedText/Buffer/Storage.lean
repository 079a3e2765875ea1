import TracedText.Buffer.Document
import TracedText.Disk.Medium
import TracedText.Json.Reader
import TracedText.Json.Writer
import TracedText.Map.Decode
import TracedText.Map.Marker

/-! # Buffers on the disk

A buffer is stored as two files side by side: its text, with a marker line at the end that names the
other, and the map of its points. `Buffer.save` writes both and `Buffer.load` reads them back.
`loadText` and `loadEntries` read a text and the entries of a map, and `Marker.target` tells where
the map of a text is. -/

namespace TracedText

/-! ### Texts and maps -/

/-- The ways in which loading fails. -/
inductive LoadError where
  /-- The file at a path cannot be read. -/
  | disk (path : String) (error : DiskError)
  /-- The bytes of a text are no UTF-8. -/
  | encoding (bytes : List UInt8)
  /-- There is no map at the path that a marker names. -/
  | missingMap (path : String)
  /-- Lists and objects stand too deep inside one another in the file of a map. -/
  | tooDeep
  | format (error : FormatError)
  | range (error : RangeError)
  | position (error : OutOfText)
deriving Repr

/-- The text of a file. -/
def loadText (d : Disk) (p : Path) : Except LoadError Text := do
  let bytes ← (d.read p).mapError (.disk p.toString)
  match Text.ofUtf8? bytes with
  | some t => return t
  | none => throw (.encoding bytes.data.toList)

theorem loadText_of_read {d : Disk} {p : Path} {t : Text} (h : d.read p = .ok t.toUtf8) :
    loadText d p = .ok t := by
  have hread : (d.read p).mapError (LoadError.disk p.toString) = .ok t.toUtf8 := by
    rw [h]
    rfl
  simp only [loadText, hread, bind, Except.bind, Text.ofUtf8?_toUtf8]
  rfl

/-- The entries of a map file. -/
def loadEntries (d : Disk) (dialect : Json.Dialect) (p : Path) : Except LoadError (List Entry) :=
  match d.read p with
  | .error .missing => .error (.missingMap p.toString)
  | .error .zeroInPath => .error (.format (.notJson p.toString .zeroInPath))
  | .error error => .error (.disk p.toString error)
  | .ok bytes =>
    match Json.read dialect bytes with
    | .error .tooDeep => .error .tooDeep
    | .error error =>
      .error (.format (.notJson p.toString (.unread dialect bytes.data.toList error)))
    | .ok document => (decodeMap document).mapError .format

/-- The path of the map that a marker in the text at a path names. -/
def Marker.target (m : Marker) (p : Path) : Except LoadError Path :=
  if m.url.toList.isEmpty then .error (.format (.emptyReference p.toString))
  else .ok (p.resolve.parent.join (.ofString m.url))

/-! ### Loading -/

/-- The point of an entry in a text with the given lines; an entry without a source or a source
line has none. A column past the end of the text is at its end. -/
def Entry.toPoint? (table : LineTable) (text : Text) (e : Entry) :
    Except OutOfText (Option Point) :=
  match e.source, e.sourceLine with
  | some source, some line => do
    let offset ← text.offsetOfUnits (table.offsetOf e.line 0) e.column
    return some ⟨min offset text.length, some source, some line, some (e.sourceColumn.getD 0),
      e.name.getD ""⟩
  | _, _ => .ok none

namespace Buffer

/-- The points of entries in a text. -/
def pointsOf (text : Text) (entries : List Entry) : Except OutOfText (List (Option Point)) :=
  entries.mapM (·.toPoint? (.ofText text .oneBasedLines) text)

/-- The warnings of loading entries that gave the given points. -/
def skippedWarnings (p : Path) (points : List (Option Point)) : List Warning :=
  match points.countP (·.isNone) with
  | 0 => []
  | count => [.skipped count p.toString]

/-- The buffer of a text with a marker, with the warnings of loading it. -/
def loadMarked (d : Disk) (dialect : Json.Dialect) (p : Path) (text : Text) (m : Marker) :
    Except LoadError (Buffer × List Warning) := do
  let text ← (Marker.strip text m.start m.stop).mapError .position
  let target ← m.target p
  let entries ← loadEntries d dialect target
  let points ← (pointsOf text entries).mapError .position
  let buffer ← (ofPoints text (points.filterMap id)).mapError .range
  return (buffer, skippedWarnings target points)

/-- The buffer at a path, with the warnings of loading it. A text without a marker has no points. -/
def load (d : Disk) (dialect : Json.Dialect) (p : Path) :
    Except LoadError (Buffer × List Warning) := do
  let text ← loadText d p
  match Marker.find? text with
  | none => return (ofText text, [])
  | some m => loadMarked d dialect p text m

/-! ### Saving -/

end Buffer

/-- The ways in which saving fails. -/
inductive SaveError where
  /-- The path has no name. -/
  | unnamed
  | trace (error : TraceError)
  | disk (error : DiskError)
  | json (error : Json.WriteError)
  /-- A text has no bytes. -/
  | encoding (text : Text)
deriving Repr

/-- What the name of a map ends in. -/
def mapSuffix : String := ".map"

namespace Medium
variable (m : Medium)

/-- The bytes of a text. -/
def encode (text : Text) : Except SaveError ByteArray :=
  if m.encodes text then .ok text.toUtf8 else .error (.encoding text)

/-- Writes a text to a file. -/
def writeText (d : Disk) (p : Path) (text : Text) : Except SaveError Unit × Disk :=
  m.write .disk d p (m.encode text)

/-- Writes a JSON value to a file, giving its text. -/
def writeJson (d : Disk) (dialect : Json.Dialect) (pretty : Bool) (p : Path) (value : Json) :
    Except SaveError Text × Disk :=
  let spelled := (Json.write dialect pretty value).mapError .json
  let (result, left) := m.write .disk d p (spelled >>= m.encode)
  (result >>= fun _ => spelled, left)

end Medium

namespace Buffer
variable (b : Buffer)

/-- The text of the buffer with the marker line of a map. -/
def markedText (mapName : String) : Text := b.text ++ '\n' :: (Marker.line mapName ++ ['\n'])

/-- Writes the buffer and its map, giving the contents of both files. -/
def save (m : Medium) (d : Disk) (dialect : Json.Dialect) (pretty : Bool) (p : Path) :
    Except SaveError (Text × Text) × Disk :=
  match p.name? with
  | none => (.error .unnamed, d)
  | some name =>
    match b.toDocument name with
    | .error error => (.error (.trace error), d)
    | .ok document =>
      let text := b.markedText (name ++ mapSuffix)
      match m.writeText d p text with
      | (.error error, left) => (.error error, left)
      | (.ok (), made) =>
        let (map, left) :=
          m.writeJson made dialect pretty (p.withName (name ++ mapSuffix)) document.toJson
        (map.map (text, ·), left)

/-- The warnings of saving the buffer to a path. -/
def saveWarnings (p : Path) : List Warning :=
  match p.name? with
  | none => []
  | some name => b.orderWarnings name

end Buffer

end TracedText
