import TracedText.Decimal.Style
import TracedText.Message
import TracedText.Text.Encoding
import TracedText.Text.Literal

/-! # JSON values

A JSON value keeps the fields of its objects in document order and tells whole numbers from
doubles. `Json.get?` looks a field up, `Json.setField` keeps the last value given to a key in the
key's first place, `Json.depth` tells how far its lists and objects stand inside one another, and
`Json.message` shows a value in a message. -/

namespace TracedText

/-- A JSON value. -/
inductive Json where
  | null
  | bool (value : Bool)
  | int (value : Int)
  | float (value : Binary64)
  | str (value : String)
  | arr (items : List Json)
  | obj (fields : List (String × Json))
deriving Repr

namespace Json

/-- The field of an object, or nothing when the value has no such field. -/
def get? (value : Json) (key : String) : Option Json :=
  match value with
  | .obj fields => fields.lookup key
  | _ => none

/-- The fields with the value of a key set: in the place of the key when it is there, and else at
the end. -/
def setField (key : String) (value : Json) : List (String × Json) → List (String × Json)
  | [] => [(key, value)]
  | (k, v) :: rest =>
    if k == key then (k, value) :: rest else (k, v) :: setField key value rest

/-- The value stands for absence: null, false, a zero, and the empty string, list and object. -/
def isEmpty : Json → Bool
  | .null => true
  | .bool value => !value
  | .int value => value == 0
  | .float value => value.isZero
  | .str value => value.toList.isEmpty
  | .arr items => items.isEmpty
  | .obj fields => fields.isEmpty

/-! ### Depth -/

mutual

/-- The number of lists and objects that stand inside one another. An empty list holds nothing and
is not counted. -/
def depth : Json → Nat
  | .arr items => if items.isEmpty then 0 else depthOfItems items + 1
  | .obj fields => depthOfFields fields + 1
  | _ => 0

/-- The greatest depth of the items. -/
def depthOfItems : List Json → Nat
  | [] => 0
  | item :: rest => max (depth item) (depthOfItems rest)

/-- The greatest depth of the values of the fields. -/
def depthOfFields : List (String × Json) → Nat
  | [] => 0
  | (_, value) :: rest => max (depth value) (depthOfFields rest)

end

/-! ### Values in messages -/

mutual

/-- The value as messages show it, to the given number of levels. -/
def display : Nat → Json → Message
  | 0, _ => [.tooDeep]
  | _ + 1, .null => ["None"]
  | _ + 1, .bool value => [if value then "True" else "False"]
  | _ + 1, .int value => [value]
  | _ + 1, .float value => [FloatStyle.message.text value]
  | _ + 1, .str value => [Text.literal value.toList]
  | levels + 1, .arr items => .words "[" :: (displayItems levels items ++ [.words "]"])
  | levels + 1, .obj fields => .words "\x7b" :: (displayFields levels fields ++ [.words "\x7d"])

/-- The items of a list, separated by commas. -/
def displayItems (levels : Nat) : List Json → Message
  | [] => []
  | [item] => display levels item
  | item :: rest => display levels item ++ .words ", " :: displayItems levels rest

/-- The fields of an object, separated by commas. -/
def displayFields (levels : Nat) : List (String × Json) → Message
  | [] => []
  | [(key, value)] => Text.literal key.toList :: .words ": " :: display levels value
  | (key, value) :: rest =>
    Text.literal key.toList :: .words ": " ::
      (display levels value ++ .words ", " :: displayFields levels rest)

end

/-- The value as messages show it. -/
def message (value : Json) : Message := display Bounds.levels value

end Json

end TracedText
