import TracedText.Bounds
import TracedText.Disk.Path

/-! # The disk

A disk tells what stands at each location: a directory, a file with its bytes, or nothing. Nothing
else stands on it: there are no symbolic links, and no two locations share a file as hard links do.
Every directory can be searched and every file read. A path is followed name by name, and every name
but the last has to lead to a directory. When the directories on the way to a file are made, what was
made stays although a later part of the work fails, so making them gives the disk along with the
outcome. -/

namespace TracedText

/-- What stands at a location. -/
inductive Node where
  | directory
  | file (bytes : ByteArray)

/-- The names on the way from the root to a place on the disk. -/
abbrev Location := List String

/-- What stands at every location. -/
abbrev Disk := Location → Option Node

/-- The ways in which a disk operation fails. -/
inductive DiskError where
  /-- Nothing stands at the place, or on the way to it. -/
  | missing
  /-- A directory stands where a file is needed. -/
  | isDirectory
  /-- A file stands on the way. -/
  | notDirectory
  /-- Something stands where a directory is to be made. -/
  | alreadyThere
  /-- A name takes more than 255 bytes, or a path more than 4095. -/
  | nameTooLong
  /-- The path holds a zero character. -/
  | zeroInPath
  /-- More directories are missing on the way than are made at once. -/
  | tooManyMissing
  /-- The writer may not write there. A disk never says so; a `Medium` may. -/
  | denied
  /-- There is no room for the file, or for so large a file. -/
  | full
deriving DecidableEq, Repr

namespace Disk

/-- The disk with a node at a location. -/
def set (d : Disk) (location : Location) (node : Node) : Disk :=
  fun l => if l = location then some node else d l

@[simp] theorem set_same (d : Disk) (location : Location) (node : Node) :
    d.set location node location = some node := by simp [set]

theorem set_ne (d : Disk) {location l : Location} (node : Node) (h : l ≠ location) :
    d.set location node l = d l := by simp [set, h]

/-- A disk that only has the directories on the way to a location, and that location. -/
def withDirectory (location : Location) : Disk :=
  fun l => if l.isPrefixOf location then some .directory else none

variable (d : Disk)

/-! ### Following paths -/

/-- The location that names lead to from another one. -/
def follow (location : Location) : List String → Except DiskError Location
  | [] => .ok location
  | part :: rest =>
    match d location with
    | none => .error .missing
    | some (.file _) => .error .notDirectory
    | some .directory =>
      if part == ".." then follow location.dropLast rest
      else if 255 < part.utf8ByteSize then .error .nameTooLong
      else follow (location ++ [part]) rest

/-- The location that a path leads to. -/
def locate (p : Path) : Except DiskError Location :=
  if p.hasZero then .error .zeroInPath
  else if 4095 < p.toString.utf8ByteSize then .error .nameTooLong
  else d.follow [] p.parts

/-- A directory stands at the path. -/
def isDirectory (p : Path) : Bool :=
  match d.locate p with
  | .ok location =>
    match d location with
    | some .directory => true
    | _ => false
  | .error _ => false

/-! ### Files -/

/-- The bytes of the file at a path. -/
def read (p : Path) : Except DiskError ByteArray := do
  let location ← d.locate p
  match d location with
  | none => throw .missing
  | some .directory => throw .isDirectory
  | some (.file bytes) => return bytes

/-- The disk with a file at a path, the directory it is in being there already. What else may keep
the file from being written is left to the `Medium`. -/
def put (p : Path) (bytes : ByteArray) : Except DiskError Disk := do
  let location ← d.locate p
  match d location with
  | some .directory => throw .isDirectory
  | _ => return d.set location (.file bytes)

/-! ### Directories -/

/-- The disk with a new directory at a path. -/
def makeDirectory (p : Path) : Except DiskError Disk := do
  let location ← d.locate p
  match d location with
  | some _ => throw .alreadyThere
  | none => return d.set location .directory

/-- The disk with a directory at a path, which may be there already. -/
def ensureDirectory (p : Path) : Except DiskError Disk :=
  match d.makeDirectory p with
  | .ok made => .ok made
  | .error error => if d.isDirectory p then .ok d else .error error

/-- Makes the directory that the names lead to, the last name standing first, and with it every
directory that is missing on the way, unless more than `room` are. -/
def ensureDirectories (d : Disk) (root : PathRoot) (room : Nat) :
    List String → Except DiskError Unit × Disk
  | [] =>
    match d.ensureDirectory ⟨root, []⟩ with
    | .ok made => (.ok (), made)
    | .error error => (.error error, d)
  | name :: names =>
    let p : Path := ⟨root, (name :: names).reverse⟩
    match d.ensureDirectory p, room with
    | .ok made, _ => (.ok (), made)
    | .error .missing, 0 => (.error .tooManyMissing, d)
    | .error .missing, rest + 1 =>
      match d.ensureDirectories root rest names with
      | (.error error, made) => (.error error, made)
      | (.ok (), made) =>
        match made.ensureDirectory p with
        | .ok complete => (.ok (), complete)
        | .error error => (.error error, made)
    | .error error, _ => (.error error, d)

/-- Makes the directory that a path is in, with every directory that is missing on the way. -/
def ensureParent (p : Path) : Except DiskError Unit × Disk :=
  d.ensureDirectories p.root Bounds.levels p.parent.parts.reverse

end Disk

end TracedText
