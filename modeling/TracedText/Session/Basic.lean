import TracedText.Session.Failure
import TracedText.Source.Cache

/-! # Sessions

A session holds named buffers, a disk and a cache of source files. A `Step` is one operation on
them, and a `Reply` what an operation that succeeds gives. -/

namespace TracedText

/-- A value to insert: a text, the buffer of a name, or something else. -/
inductive Value where
  | text (t : Text)
  | buffer (name : String)
  | foreign (value : Json)
deriving Repr

/-- What a step does. Paths are those of the session's directory. -/
inductive Action where
  /-- Makes the buffer of a text with points in any order. -/
  | create (text : Text) (points : List Point)
  /-- Makes the buffer of a text with points as they are given. -/
  | createUnchecked (text : Text) (points : List Point)
  | splice (offset count : Int) (value : Value)
  | insert (offset : Int) (value : Value)
  | delete (offset count : Int)
  | append (value : Value)
  /-- Stores a part of the buffer under another name. -/
  | slice (start stop : Int) (target : String)
  | deleteAll (ranges : List (Int × Int)) (base : Int)
  /-- Deletes a range widened to whole lines. -/
  | deleteExtent (start stop : Int)
  | describe
  | toDocument (file : String)
  | save (path : String) (pretty : Bool)
  | load (path : String)
  | loadEntries (path : String)
  | openSource (path : String) (map : Option String)
  | openCached (path : String)
  | clearCache
  | writeBytes (path : String) (bytes : ByteArray)
  | readText (path : String)
  | readBytes (path : String)

/-- An action on the buffer of a name, in a dialect of JSON. -/
structure Step where
  name : String
  dialect : Json.Dialect
  action : Action

/-- What a step gives when it succeeds. -/
inductive Reply where
  | nothing
  /-- A buffer that was stored. -/
  | buffer (b : Buffer)
  /-- The number of ranges deleted. -/
  | count (n : Nat)
  /-- The range that was deleted. -/
  | extent (start stop : Int)
  /-- The length of a buffer and its sizes in words. -/
  | sizes (length : Nat) (words : String)
  | document (d : Document)
  /-- The contents of the two files of a buffer. -/
  | files (text map : Text)
  | entries (entries : List Entry)
  | source (file : SourceFile)
  /-- A cached source file, and whether it is the very object that the last such reply gave. -/
  | cached (file : SourceFile) (same : Bool)
  | text (t : Text)
  | bytes (bytes : ByteArray)

/-- The buffers, the disk and the cache. -/
structure Session where
  /-- The directory that the paths of steps are seen from. -/
  home : Path
  /-- What the disk is written through. -/
  medium : Medium
  buffers : String → Option Buffer
  disk : Disk
  cache : Cache
  /-- The ticket of the cached source file that was given last. -/
  served : Option Nat

namespace Session

/-- The session at its start, in an empty directory. -/
def start (home : Path) : Session :=
  ⟨home, .plain, fun _ => none, .withDirectory home.parts, .empty, none⟩

variable (s : Session)

/-- The path that the text of a step stands for. -/
def path (text : String) : Path := .ofString (s.home.toString ++ "/" ++ text)

/-- The session with a buffer under a name. -/
def setBuffer (name : String) (b : Buffer) : Session :=
  { s with buffers := fun n => if n = name then some b else s.buffers n }

@[simp] theorem setBuffer_same (name : String) (b : Buffer) :
    (s.setBuffer name b).buffers name = some b := by simp [setBuffer]

theorem setBuffer_ne {name n : String} (b : Buffer) (h : n ≠ name) :
    (s.setBuffer name b).buffers n = s.buffers n := by simp [setBuffer, h]

theorem setBuffer_self {name : String} {b : Buffer} (h : s.buffers name = some b) :
    s.setBuffer name b = s := by
  have hbuffers : (fun n => if n = name then some b else s.buffers n) = s.buffers := by
    funext n
    split
    · subst n
      exact h.symm
    · rfl
  rw [setBuffer, hbuffers]

/-- The buffer of a name. -/
def buffer (name : String) : Except Failure Buffer :=
  match s.buffers name with
  | some b => .ok b
  | none => .error (.noBuffer name)

theorem buffer_eq_ok {s : Session} {name : String} {b : Buffer} :
    s.buffer name = .ok b ↔ s.buffers name = some b := by
  unfold buffer
  cases s.buffers name <;> simp

/-- The insertion that a value stands for. -/
def insertion : Value → Except Failure Insertion
  | .text t => .ok (.text t)
  | .buffer name => (s.buffer name).map .buffer
  | .foreign value => .ok (.foreign value)

end Session

end TracedText
