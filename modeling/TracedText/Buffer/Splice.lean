import TracedText.Buffer.Basic
import TracedText.Json.Basic

/-! # Splicing values into a buffer

A splice takes what it inserts from outside: a text, another buffer, or some other value, which it
refuses by kind once the span is known to lie in the text. -/

namespace TracedText

/-- What is to be inserted. -/
inductive Insertion where
  | text (t : Text)
  | buffer (b : Buffer)
  /-- A value that is neither a text nor a buffer. -/
  | foreign (value : Json)
deriving Repr

/-- The ways in which a splice fails. -/
inductive SpliceError where
  | range (error : RangeError)
  | foreign (value : Json)
deriving Repr

/-- The word for the kind of a value. -/
def Json.kindName : Json → String
  | .null => "NoneType"
  | .bool _ => "bool"
  | .int _ => "int"
  | .float _ => "float"
  | .str _ => "str"
  | .arr _ => "list"
  | .obj _ => "dict"

/-- What the failure is told as. -/
def SpliceError.message : SpliceError → Message
  | .range error => error.message
  | .foreign value => ["Cannot splice in ", value.kindName, "; expected str or MappedBuffer"]

/-- The buffer that an insertion stands for. -/
def Insertion.toBuffer : Insertion → Except SpliceError Buffer
  | .text t => .ok (.ofText t)
  | .buffer b => .ok b
  | .foreign value => .error (.foreign value)

namespace Buffer
variable (b : Buffer)

/-- The buffer with an insertion in place of `count` characters from `offset` on. -/
def splice (offset count : Int) (insertion : Insertion) : Except SpliceError Buffer := do
  (b.checkSpan offset count).mapError .range
  (b.replace offset count (← insertion.toBuffer)).mapError .range

/-- The buffer with an insertion at an offset. -/
def insert (offset : Int) (insertion : Insertion) : Except SpliceError Buffer :=
  b.splice offset 0 insertion

/-- The buffer with an insertion at its end. -/
def append (insertion : Insertion) : Except SpliceError Buffer :=
  b.splice b.text.length 0 insertion

/-- The sizes of a buffer in words. -/
def describe : String := s!"MappedBuffer(len={b.text.length}, points={b.points.length})"

end Buffer

end TracedText
