import TracedText.Message
import TracedText.Text.Literal

/-! # Variable-length quantities

Position maps spell integers in base sixty-four digits. A digit carries five bits and a mark that
more digits follow; the digits of a value come least first, and the lowest bit of a value is its
sign. `Vlq.encode` spells a list of integers without separators, `Vlq.decode` reads one back. -/

namespace TracedText.Vlq

/-! ### Digits -/

/-- The characters of the digits from zero to sixty-three. -/
def alphabet : List Char :=
  "ABCDEFGHIJKLMNOPQRSTUVWXYZabcdefghijklmnopqrstuvwxyz0123456789+/".toList

/-- The character of a digit. -/
def digitChar (digit : Nat) : Char := alphabet.getD digit 'A'

/-- The digit that a character stands for. -/
def digit? (c : Char) : Option Nat := alphabet.idxOf? c

/-! ### Signs -/

/-- The natural number with the sign in its lowest bit and the size above it. -/
def signed (value : Int) : Nat := if value < 0 then 2 * value.natAbs + 1 else 2 * value.natAbs

/-- The integer whose sign and size a natural number holds. -/
def unsigned (n : Nat) : Int :=
  let size : Int := (n / 2 : Nat)
  if n % 2 = 1 then -size else size

@[simp] theorem unsigned_signed (value : Int) : unsigned (signed value) = value := by
  unfold unsigned signed
  split <;> simp only <;> split <;> omega

/-! ### Spelling -/

/-- The digits of a number, least first, all but the last marked. -/
def digits (n : Nat) : List Nat :=
  if n < 32 then [n] else (n % 32 + 32) :: digits (n / 32)
termination_by n
decreasing_by omega

/-- The spelling of one integer. -/
def encodeValue (value : Int) : Text := (digits (signed value)).map digitChar

/-- The spelling of a list of integers. -/
def encode (values : List Int) : Text := values.flatMap encodeValue

/-! ### Reading -/

/-- The ways in which a text fails to spell integers. -/
inductive Error where
  /-- The first character that is no digit, with the whole text. -/
  | foreignChar (c : Char) (text : Text)
  /-- The last digit is marked, so the text ends inside a value. -/
  | truncated (text : Text)
deriving DecidableEq, Repr

/-- What the failure is told as. -/
def Error.message : Error → Message
  | .foreignChar c text =>
    ["Invalid base64 VLQ character ", Text.literal [c], " in ", Text.literal text]
  | .truncated text => ["Truncated base64 VLQ value in ", Text.literal text]

/-- The numbers that a list of digits spells, unless it ends inside one. A marked digit is joined
to the number that starts behind it. -/
def numbers? : List Nat → Option (List Nat)
  | [] => some []
  | digit :: rest =>
    match numbers? rest with
    | none => none
    | some numbers =>
      if digit < 32 then some (digit :: numbers)
      else
        match numbers with
        | [] => none
        | n :: others => some ((digit - 32 + 32 * n) :: others)

/-- The integers that a text spells. -/
def decode (text : Text) : Except Error (List Int) :=
  match text.find? fun c => (digit? c).isNone with
  | some c => .error (.foreignChar c text)
  | none =>
    match numbers? (text.filterMap digit?) with
    | some numbers => .ok (numbers.map unsigned)
    | none => .error (.truncated text)

end TracedText.Vlq
