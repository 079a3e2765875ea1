import TracedText.Json.Dialect

/-! # Writing JSON

A document is written with the fields of every object in the order of their keys, either in one
line without spaces or with two blanks of indentation a level and a line feed at the end.
`Json.sortKeys` puts the fields in order, `Json.print` writes a value as it stands, and
`Json.write` does both. -/

namespace TracedText.Json

/-! ### Key order -/

/-- Puts the fields of one object in the order of their keys, by code points. -/
def sortFields (fields : List (String × Json)) : List (String × Json) :=
  fields.mergeSort fun a b => decide (a.1 ≤ b.1)

mutual

/-- The value with the fields of every object in it in the order of their keys. -/
def sortKeys : Json → Json
  | .arr items => .arr (sortKeysItems items)
  | .obj fields => .obj (sortFields (sortKeysFields fields))
  | value => value

/-- The items, each with its fields in order. -/
def sortKeysItems : List Json → List Json
  | [] => []
  | item :: rest => sortKeys item :: sortKeysItems rest

/-- The fields in the order given, each value with its own fields in order. -/
def sortKeysFields : List (String × Json) → List (String × Json)
  | [] => []
  | (key, value) :: rest => (key, sortKeys value) :: sortKeysFields rest

end

/-! ### Strings -/

/-- A character as it stands in a JSON string. -/
def escapeChar (c : Char) : Text :=
  if c == '\x22' || c == '\x5c' then ['\x5c', c]
  else if c == '\x08' then ['\x5c', 'b']
  else if c == '\t' then ['\x5c', 't']
  else if c == '\n' then ['\x5c', 'n']
  else if c == '\x0c' then ['\x5c', 'f']
  else if c == '\r' then ['\x5c', 'r']
  else if c.toNat < 0x20 then '\x5c' :: 'u' :: hexDigits 4 c.toNat
  else [c]

/-- A text as a JSON string. -/
def quote (t : Text) : Text := '\x22' :: (t.flatMap escapeChar ++ ['\x22'])

/-! ### Values -/

/-- How the parts of a value are set apart: the indentation of a level, or nothing. -/
abbrev Layout := Option Nat

namespace Layout

/-- The line break in front of a part at the given depth. -/
def lineBreak (layout : Layout) (depth : Nat) : Text :=
  match layout with
  | some width => '\n' :: List.replicate (width * depth) ' '
  | none => []

/-- The colon between a key and its value. -/
def colon (layout : Layout) : Text := if layout.isSome then [':', ' '] else [':']

end Layout

section
variable (floats : FloatStyle) (layout : Layout)

mutual

/-- The value at the given depth. -/
def print (depth : Nat) : Json → Text
  | .null => "null".toList
  | .bool value => if value then "true".toList else "false".toList
  | .int value => integerText value
  | .float value => floats.text value
  | .str value => quote value.toList
  | .arr items =>
    if items.isEmpty then ['[', ']']
    else '[' :: (printItems (depth + 1) items ++ (layout.lineBreak depth ++ [']']))
  | .obj fields =>
    if fields.isEmpty then ['\x7b', '\x7d']
    else '\x7b' :: (printFields (depth + 1) fields ++ (layout.lineBreak depth ++ ['\x7d']))

/-- The items of a list, each on a line of its own, with commas between them. -/
def printItems (depth : Nat) : List Json → Text
  | [] => []
  | item :: rest =>
    layout.lineBreak depth ++ (print depth item ++
      (if rest.isEmpty then [] else ',' :: printItems depth rest))

/-- The fields of an object, each on a line of its own, with commas between them. -/
def printFields (depth : Nat) : List (String × Json) → Text
  | [] => []
  | (key, value) :: rest =>
    layout.lineBreak depth ++ (quote key.toList ++ (layout.colon ++ (print depth value ++
      (if rest.isEmpty then [] else ',' :: printFields depth rest))))

end

end

/-! ### Documents -/

/-- The ways in which a value fails to be written. -/
inductive WriteError where
  /-- A whole number has more than sixty-four bits. -/
  | tooWide (value : Int)
  /-- Lists and objects stand deeper inside one another than they are written. -/
  | tooDeep
deriving DecidableEq, Repr

mutual

/-- The first whole number in the value that does not fit sixty-four bits. -/
def wideInteger? : Json → Option Int
  | .int value => if fits64 value then none else some value
  | .arr items => wideIntegerInItems? items
  | .obj fields => wideIntegerInFields? fields
  | _ => none

/-- The first such number in the items. -/
def wideIntegerInItems? : List Json → Option Int
  | [] => none
  | item :: rest => (wideInteger? item).or (wideIntegerInItems? rest)

/-- The first such number in the fields. -/
def wideIntegerInFields? : List (String × Json) → Option Int
  | [] => none
  | (_, value) :: rest => (wideInteger? value).or (wideIntegerInFields? rest)

end

/-- Where the parts of a document stand: indented by two blanks a level, or all in one line. -/
def Layout.ofPretty (pretty : Bool) : Layout := if pretty then some 2 else none

/-- The document of a value. -/
def write (dialect : Dialect) (pretty : Bool) (value : Json) : Except WriteError Text :=
  match if dialect.wideIntegers then none else value.wideInteger? with
  | some n => .error (.tooWide n)
  | none =>
    if dialect.writeDepth.any (· < value.depth) then .error .tooDeep
    else
      .ok (print dialect.floats (.ofPretty pretty) 0 value.sortKeys ++
        if pretty then ['\n'] else [])

end TracedText.Json
