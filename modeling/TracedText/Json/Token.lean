import TracedText.Json.Dialect

/-! # The tokens of JSON

Readers for the parts of a document that hold no values: blanks, strings, and numbers. Each takes
the text from its first character on and gives what it read with the text behind it. -/

namespace TracedText.Json

/-- A character that may stand between tokens. -/
def isSpace (c : Char) : Bool := c == ' ' || c == '\t' || c == '\n' || c == '\r'

/-- The text behind the blanks at its front. -/
def skipSpaces (t : Text) : Text := t.dropWhile isSpace

/-- The text behind a word, if it starts with the word. -/
def dropWord? (word t : Text) : Option Text :=
  if word.isPrefixOf t then some (t.drop word.length) else none

/-! ### Strings -/

/-- The value of a hexadecimal digit. -/
def hexValue? (c : Char) : Option Nat :=
  if c.isDigit then some (c.toNat - 48)
  else if 'a' ≤ c && c ≤ 'f' then some (c.toNat - 87)
  else if 'A' ≤ c && c ≤ 'F' then some (c.toNat - 55)
  else none

/-- The number of four hexadecimal digits. -/
def hexValue4? (a b c d : Char) : Option Nat :=
  [a, b, c, d].foldlM (fun n digit => (hexValue? digit).map (16 * n + ·)) 0

/-- The character that a one-letter escape stands for. -/
def escaped? (c : Char) : Option Char :=
  if c == '\x22' || c == '\x5c' || c == '/' then some c
  else if c == 'b' then some '\x08'
  else if c == 't' then some '\t'
  else if c == 'n' then some '\n'
  else if c == 'f' then some '\x0c'
  else if c == 'r' then some '\r'
  else none

/-- A part of a string: a character, or a code unit spelled by an escape. -/
inductive StringPart where
  | char (c : Char)
  | unit (n : Nat)
deriving DecidableEq, Repr

/-- The parts of the string that starts here, up to its closing quote. -/
def readParts : Text → Option (List StringPart × Text)
  | [] => none
  | '\x5c' :: 'u' :: a :: b :: c :: d :: rest => do
    let n ← hexValue4? a b c d
    let (parts, behind) ← readParts rest
    return (.unit n :: parts, behind)
  | '\x5c' :: c :: rest => do
    let plain ← escaped? c
    let (parts, behind) ← readParts rest
    return (.char plain :: parts, behind)
  | c :: rest =>
    if c == '\x22' then some ([], rest)
    else if c.toNat < 0x20 || c == '\x5c' then none
    else do
      let (parts, behind) ← readParts rest
      return (.char c :: parts, behind)

/-- The text of the parts. Two units that are a surrogate pair are one character; a surrogate
without its partner is the replacement character where that is allowed. -/
def textOfParts (loneSurrogates : Bool) : List StringPart → Option Text
  | [] => some []
  | .char c :: rest => (textOfParts loneSurrogates rest).map (c :: ·)
  | .unit n :: .unit m :: rest =>
    if isHighSurrogate n && isLowSurrogate m then
      (textOfParts loneSurrogates rest).map (pairedChar n m :: ·)
    else if !loneSurrogates && (isHighSurrogate n || isLowSurrogate n) then none
    else (textOfParts loneSurrogates (.unit m :: rest)).map (scalarChar n :: ·)
  | .unit n :: rest =>
    if !loneSurrogates && (isHighSurrogate n || isLowSurrogate n) then none
    else (textOfParts loneSurrogates rest).map (scalarChar n :: ·)

/-- The string whose characters start here, with the text behind its closing quote. -/
def readString (loneSurrogates : Bool) (t : Text) : Option (Text × Text) := do
  let (parts, rest) ← readParts t
  return (← textOfParts loneSurrogates parts, rest)

/-! ### Numbers -/

/-- A number as it is spelled. -/
structure NumberToken where
  negative : Bool
  whole : Text
  /-- The digits behind the point; none without a point. -/
  fraction : Text
  /-- The power of ten, if one is spelled. -/
  power : Option Int
deriving DecidableEq, Repr

namespace NumberToken
variable (token : NumberToken)

/-- The number has neither a point nor a power of ten. -/
def isWhole : Bool := token.fraction.isEmpty && token.power.isNone

/-- The whole number of the digits in front of the point. -/
def integer : Int :=
  let size : Int := Nat.ofDigitChars 10 token.whole 0
  if token.negative then -size else size

/-- The double nearest to the number. -/
def double : Binary64 :=
  .ofDecimal token.negative (Nat.ofDigitChars 10 (token.whole ++ token.fraction) 0)
    (token.power.getD 0 - token.fraction.length)

end NumberToken

/-- The digits in front of the point; a zero stands alone. -/
def readWhole (t : Text) : Text × Text :=
  match t with
  | '0' :: rest => (['0'], rest)
  | _ => t.span Char.isDigit

/-- The digits behind a point, if there is a point with digits behind it. -/
def readFraction (t : Text) : Text × Text :=
  match t with
  | '.' :: rest =>
    let (digits, behind) := rest.span Char.isDigit
    if digits.isEmpty then ([], t) else (digits, behind)
  | _ => ([], t)

/-- The digits of a power of ten and its sign. -/
def readSigned (t : Text) : Option Int × Text :=
  let (negative, unsigned) :=
    match t with
    | '-' :: rest => (true, rest)
    | '+' :: rest => (false, rest)
    | _ => (false, t)
  let (digits, behind) := unsigned.span Char.isDigit
  let size : Int := Nat.ofDigitChars 10 digits 0
  if digits.isEmpty then (none, t) else (some (if negative then -size else size), behind)

/-- The power of ten, if one is spelled. -/
def readPower (t : Text) : Option Int × Text :=
  match t with
  | c :: rest =>
    if c == 'e' || c == 'E' then
      match readSigned rest with
      | (some power, behind) => (some power, behind)
      | (none, _) => (none, t)
    else (none, t)
  | [] => (none, t)

/-- The number that starts here. -/
def readNumber (t : Text) : Option (NumberToken × Text) :=
  let (negative, unsigned) :=
    match t with
    | '-' :: rest => (true, rest)
    | _ => (false, t)
  let (whole, afterWhole) := readWhole unsigned
  if whole.isEmpty then none
  else
    let (fraction, afterFraction) := readFraction afterWhole
    let (power, rest) := readPower afterFraction
    some (⟨negative, whole, fraction, power⟩, rest)

end TracedText.Json
