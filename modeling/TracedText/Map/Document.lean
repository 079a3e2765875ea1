import TracedText.Json.Reader
import TracedText.Map.Vlq

/-! # Map documents

A position map is stored as a JSON object: a version, the generated file, a root in front of every
source, the tables of sources and names, and the text of the mappings. In this text semicolons
separate the generated lines and commas the segments of a line. `Document.toJson` gives the object,
and `FormatError` lists the ways in which a JSON value fails to be one. -/

namespace TracedText

/-- The version of the format. -/
def formatVersion : Int := 3

/-- A map document. -/
structure Document where
  file : String
  sourceRoot : String
  sources : List String
  names : List String
  mappings : Text
deriving DecidableEq, Repr

/-- The document as a JSON object. -/
def Document.toJson (d : Document) : Json :=
  .obj [("version", .int formatVersion), ("file", .str d.file), ("sourceRoot", .str d.sourceRoot),
    ("sources", .arr (d.sources.map .str)), ("names", .arr (d.names.map .str)),
    ("mappings", .str (String.ofList d.mappings))]

/-- The reasons why the file of a map is no JSON. -/
inductive NotJson where
  /-- The path of the file holds a zero character. -/
  | zeroInPath
  /-- The bytes of the file are no document of the dialect. -/
  | unread (dialect : Json.Dialect) (bytes : List UInt8) (error : Json.ReadError)
deriving Repr

/-- The ways in which a map fails to be one that can be followed. Lines are counted from one. -/
inductive FormatError where
  /-- The document is no object. -/
  | notObject
  /-- The document is an index of several maps. -/
  | sectioned
  /-- The version is another one. -/
  | version (found : Json)
  /-- The mappings are no string. -/
  | mappings
  /-- The root of the sources is neither empty nor a string. -/
  | sourceRoot
  /-- A table is no list. -/
  | table (key : String)
  /-- A table holds something that is neither a string nor null. -/
  | tableItem (key : String) (item : Json)
  /-- A segment spells no integers. -/
  | segment (error : Vlq.Error)
  /-- A segment has neither one field nor four nor five. -/
  | fieldCount (text : Text) (line count : Nat)
  /-- A running generated column is negative. -/
  | column (line : Nat)
  /-- A running source index is not in its table. -/
  | sourceIndex (index : Int) (line : Nat)
  /-- A running name index is not in its table. -/
  | nameIndex (index : Int) (line : Nat)
  /-- A marker names no map; the path is that of the text that holds it. -/
  | emptyReference (path : String)
  /-- The file of the map is no JSON. -/
  | notJson (path : String) (reason : NotJson)
deriving Repr

/-- What the failure is told as. Why a file is no JSON is not put into words. -/
def FormatError.message : FormatError → Message
  | .notObject => ["Source map must be a JSON object"]
  | .sectioned => ["Indexed source maps are not supported"]
  | .version found => "Unsupported source map version: " :: found.message
  | .mappings => ["Source map field 'mappings' must be a string"]
  | .sourceRoot => ["Source map field 'sourceRoot' must be a string"]
  | .table key => ["Source map field '", key, "' must be a list"]
  | .tableItem key item =>
    "Source map field '" :: key :: "' must hold strings, got " :: item.message
  | .segment error => error.message
  | .fieldCount text line count =>
    ["Segment ", Text.literal text, " on line ", line, " has ", count, " fields"]
  | .column line => ["Negative generated column on line ", line]
  | .sourceIndex index line => ["Source index ", index, " out of range on line ", line]
  | .nameIndex index line => ["Name index ", index, " out of range on line ", line]
  | .emptyReference path => ["Empty sourceMappingURL in ", path]
  | .notJson path _ => ["Source map ", path, " is not valid JSON"]

end TracedText
