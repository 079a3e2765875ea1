/-! # Paths

A path is a list of names with a root in front, or none. Empty names and single dots are left out
when a path is read; double dots stay, since what they lead to depends on the disk. `Path.resolve`
takes them out by cutting the name in front of each. It reads no disk: there are no symbolic links
that it would have to follow. -/

namespace TracedText

/-- What a path starts at: the place it is joined to, the root, or the second root that exactly two
slashes name. -/
inductive PathRoot where
  | relative
  | single
  | double
deriving DecidableEq, Repr

/-- What stands in front of the names of a path. -/
def PathRoot.text : PathRoot → String
  | .relative => ""
  | .single => "/"
  | .double => "//"

/-- A path. -/
structure Path where
  root : PathRoot
  parts : List String
deriving DecidableEq, Repr

namespace Path

/-- The root of a text: there are as many slashes in front as it says. -/
def rootOf : List Char → PathRoot
  | '/' :: '/' :: '/' :: _ => .single
  | '/' :: '/' :: _ => .double
  | '/' :: _ => .single
  | _ => .relative

/-- The path that a text spells. -/
def ofString (s : String) : Path :=
  ⟨rootOf s.toList,
    ((s.toList.splitOn '/').filter fun part => part != [] && part != ['.']).map String.ofList⟩

variable (p : Path)

/-- The text of the path; a path without root and names is a dot. -/
def toString : String :=
  match p.root, p.parts with
  | .relative, [] => "."
  | root, parts => root.text ++ "/".intercalate parts

/-- The second path seen from the first; one with a root stands for itself. -/
def join (q : Path) : Path :=
  match q.root with
  | .relative => ⟨p.root, p.parts ++ q.parts⟩
  | _ => q

/-- The path without its last name. -/
def parent : Path := ⟨p.root, p.parts.dropLast⟩

/-- The last name; a path without names has none. -/
def name? : Option String := p.parts.getLast?

/-- The path with another last name. -/
def withName (name : String) : Path := ⟨p.root, p.parts.dropLast ++ [name]⟩

/-- A name of the path holds a zero character. -/
def hasZero : Bool := p.parts.any fun part => part.toList.contains '\x00'

/-- The names that are left when each double dot takes away the name in front of it. -/
def resolveParts (parts : List String) : List String :=
  parts.foldl (fun done part => if part == ".." then done.dropLast else done ++ [part]) []

/-- The path from the root without double dots. What stands on a disk does not matter to it. -/
def resolve : Path := ⟨.single, resolveParts p.parts⟩

end Path

end TracedText
