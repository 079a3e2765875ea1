import TracedText.Buffer.Deletion
import TracedText.Buffer.Splice
import TracedText.Source.File

/-! # Failures

`Failure` joins the failures of all operations, so that they can be told in one place. Those that
the operations raise themselves come with a `Failure.message`; the failures of reading a position, a
file or a JSON document go without. `Failure.told` puts the message into words. A failure whose
message cannot be said is not told at all: in its place stands the reason why it cannot. -/

namespace TracedText

/-- The failure of an operation. -/
inductive Failure where
  /-- A text has no character at a position. -/
  | position (error : OutOfText)
  | range (error : RangeError)
  | overlap (found : Overlap)
  /-- A value that is neither a text nor a buffer was to be inserted. -/
  | foreign (value : Json)
  | vlq (error : Vlq.Error)
  | entry (error : EntryError)
  | origin (error : NoSourcePosition)
  | format (error : FormatError)
  /-- There is no map at the path that a marker names. -/
  | missingMap (path : String)
  | disk (error : DiskError)
  /-- The bytes of a text are no UTF-8. -/
  | encoding
  | json (error : Json.ReadError)
  | unwritable (error : Json.WriteError)
  /-- A text that is to be written has no bytes. -/
  | unencodable (text : Text)
  /-- A path without names is to be saved to. -/
  | unnamed
  /-- No buffer has the name. -/
  | noBuffer (name : String)
  /-- The message of a failure cannot be said. -/
  | unsayable (reason : Unsayable)
deriving Repr

namespace Failure

/-- What the failure is told as, for those that the operations raise themselves. -/
def message : Failure → Option Message
  | .range error => some error.message
  | .overlap found => some found.message
  | .foreign value => some (SpliceError.foreign value).message
  | .vlq error => some error.message
  | .entry error => some error.message
  | .origin error => some error.message
  | .format error => some error.message
  | .missingMap path => some ["Source map not found: ", path]
  | _ => none

/-- The failure that is told, with its words if it has any. -/
def told (failure : Failure) : Failure × Option String :=
  match failure.message.map Message.render with
  | none => (failure, none)
  | some (.ok words) => (failure, some words)
  | some (.error reason) => (.unsayable reason, none)

/-- The failure of a splice. -/
def ofSplice : SpliceError → Failure
  | .range error => .range error
  | .foreign value => .foreign value

/-- The failure of a batch of deletions. -/
def ofBatch : BatchError → Failure
  | .overlap found => .overlap found
  | .range error => .range error

/-- The failure of making a map. -/
def ofTrace : TraceError → Failure
  | .range error => .range error
  | .position error => .origin error

/-- The failure of loading. -/
def ofLoad : LoadError → Failure
  | .disk _ error => .disk error
  | .encoding _ => .encoding
  | .missingMap path => .missingMap path
  | .tooDeep => .json .tooDeep
  | .format error => .format error
  | .range error => .range error
  | .position error => .position error

/-- The failure of saving. -/
def ofSave : SaveError → Failure
  | .unnamed => .unnamed
  | .trace error => ofTrace error
  | .disk error => .disk error
  | .json error => .unwritable error
  | .encoding text => .unencodable text

end Failure

end TracedText
