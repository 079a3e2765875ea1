import TracedText.Text.Extent

/-! # The marker line

A text names its map in a marker: a fixed opening and then, up to the end of the line, the place of
the map. `Marker.find?` finds the first one, and `Marker.strip` takes a marker out of a text with
its terminator; when it stood on the last line, the line feed in front of it goes too, so that a
text to which `Marker.line` was added on a line of its own comes back unchanged. -/

namespace TracedText

/-- A marker in a text: the place it names, and the offsets at which it starts and ends. -/
structure Marker where
  url : String
  start : Nat
  stop : Nat
deriving DecidableEq, Repr

namespace Marker

/-- What every marker starts with. -/
def opening : Text := "//# sourceMappingURL=".toList

/-- The marker that names a map. -/
def line (name : String) : Text := opening ++ name.toList

/-- The least offset at which a marker starts. -/
def offset? : Text → Option Nat
  | [] => none
  | c :: rest => if opening.isPrefixOf (c :: rest) then some 0 else (offset? rest).map (· + 1)

/-- The first marker of a text. -/
def find? (t : Text) : Option Marker :=
  (offset? t).map fun start =>
    let url := (t.drop (start + opening.length)).takeWhile fun c => !isTerminator c
    ⟨String.ofList url, start, start + opening.length + url.length⟩

/-- Where a part that ends at `stop` is taken to start: when it ends the text, at the line feed in
front of it. -/
def cutStart (t : Text) (start stop : Int) : Except OutOfText Int :=
  if stop == t.length && 0 < start then do
    return if (← t.charAt (start - 1)) == '\n' then start - 1 else start
  else .ok start

/-- The text without the part between two positions, the terminator behind it, and, if nothing is
left behind that, the line feed in front of it. -/
def strip (t : Text) (start stop : Int) : Except OutOfText Text := do
  let stop ← t.skipTerminator stop
  let start ← cutStart t start stop
  return t.sliceTo start ++ t.sliceFrom stop

end Marker

end TracedText
