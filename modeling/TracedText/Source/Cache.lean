import TracedText.Source.File

/-! # The cache of source files

The cache keeps the source file that was loaded last, under its resolved path, until it is cleared
or another one is loaded. Every load gets a ticket of its own, so that two answers are one and the
same object exactly when their tickets agree. -/

namespace TracedText

/-- A source file with the ticket of the load it came from. -/
structure Loaded where
  ticket : Nat
  file : SourceFile
deriving DecidableEq, Repr

/-- What the cache keeps, and the ticket of the next load. -/
structure Cache where
  kept : Option (Path × Loaded)
  next : Nat
deriving DecidableEq, Repr

namespace Cache

/-- The cache before the first load. -/
def empty : Cache := ⟨none, 0⟩

variable (c : Cache)

/-- The cache that keeps nothing. -/
def clear : Cache := { c with kept := none }

/-- The file kept for a resolved path. -/
def find? (key : Path) : Option Loaded :=
  match c.kept with
  | some (kept, loaded) => if kept = key then some loaded else none
  | none => none

/-- The file kept for a resolved path, or else the one loaded from it, which is kept from then on.
A load that fails leaves the cache as it was. -/
def get (d : Disk) (dialect : Json.Dialect) (key : Path) : Except LoadError (Loaded × Cache) :=
  match c.find? key with
  | some loaded => .ok (loaded, c)
  | none => do
    let file ← SourceFile.load d dialect key none
    let loaded : Loaded := ⟨c.next, file⟩
    return (loaded, ⟨some (key, loaded), c.next + 1⟩)

end Cache

end TracedText
