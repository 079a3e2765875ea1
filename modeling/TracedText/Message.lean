import TracedText.Bounds
import TracedText.Decimal.Integer

/-! # Messages

The message of a failure is a list of pieces: words, numbers, and the places where a value goes too
deep to be shown. `Message.render` says the message. Not every message can be said, since there are
bounds to the numbers and values that are put into words; then the first piece that cannot be said
gives the reason. -/

namespace TracedText

/-- A piece of a message. -/
inductive Piece where
  | words (s : String)
  | number (n : Int)
  /-- What stands too deep in a value. -/
  | tooDeep
deriving DecidableEq, Repr

instance : Coe String Piece := ⟨.words⟩
instance : Coe Text Piece := ⟨fun t => .words (String.ofList t)⟩
instance : Coe Int Piece := ⟨.number⟩
instance : Coe Nat Piece := ⟨fun n => .number n⟩

/-- The reasons why a message cannot be said. -/
inductive Unsayable where
  /-- A number in it has too many digits. -/
  | longNumber
  /-- A value in it is nested too deeply. -/
  | tooDeep
deriving DecidableEq, Repr

/-- The piece in words. -/
def Piece.text : Piece → Except Unsayable Text
  | .words s => .ok s.toList
  | .number n =>
    if n.natAbs < Nat.pow 10 Bounds.digits then .ok (integerText n) else .error .longNumber
  | .tooDeep => .error .tooDeep

/-- A message. -/
abbrev Message := List Piece

/-- The message in words. -/
def Message.render (m : Message) : Except Unsayable String :=
  (m.mapM Piece.text).map fun texts => String.ofList texts.flatten

end TracedText
