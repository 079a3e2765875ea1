import TracedText.Bisect
import TracedText.Map.Decode

/-! # Looking up positions

A `MapIndex` holds entries in the order of their generated positions. A position is covered by the
last entry at or in front of it on the same line; when that entry has no source, the position has
none either. -/

namespace TracedText

/-- Entries in the order of their generated positions. -/
structure MapIndex where
  entries : List Entry
deriving DecidableEq, Repr

namespace MapIndex

/-- The index of entries in any order. -/
def ofEntries (entries : List Entry) : MapIndex := ⟨Entry.sort entries⟩

/-- The index of a map document. -/
def ofDocument (document : Json) : Except FormatError MapIndex :=
  (decodeMap document).map ofEntries

variable (index : MapIndex)

/-- The entries up to a generated position. -/
def upTo (line column : Int) : List Entry :=
  index.entries.take (bisect (fun entry =>
    (entry.line : Int) < line || ((entry.line : Int) == line && (entry.column : Int) ≤ column))
    index.entries)

/-- The entry that covers a generated position and has a source. -/
def find? (line column : Int) : Option Entry :=
  (index.upTo line column).getLast?.filter fun entry =>
    (entry.line : Int) == line && entry.source.isSome

end MapIndex

end TracedText
