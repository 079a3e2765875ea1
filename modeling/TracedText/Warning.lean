/-! # Warnings

Some operations succeed and still have something to tell. `Warning` lists what that can be, and
`Warning.message` says it in words. -/

namespace TracedText

/-- What an operation that goes on may tell. -/
inductive Warning where
  /-- The points of the buffer of a file were not in order. -/
  | outOfOrder (file : String)
  /-- Entries of a map have no source, so no points came of them. -/
  | skipped (count : Nat) (path : String)
deriving DecidableEq, Repr

/-- The warning in words. -/
def Warning.message : Warning → String
  | .outOfOrder file => s!"Mapping points out of order for {file}; re-sorting"
  | .skipped count path => s!"Skipped {count} map entries without a source in {path}"

end TracedText
