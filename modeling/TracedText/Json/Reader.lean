import TracedText.Json.Token

/-! # Reading JSON

`Json.parse` reads the value that a text spells in a dialect, and `Json.read` the value of a file.
When an object gives a key twice, the last value counts, in the place of the first. Lists and
objects are read as far inside one another as the dialect goes. -/

namespace TracedText.Json

/-- The ways in which a document fails to be read. -/
inductive ReadError where
  /-- The text spells no value of the dialect. -/
  | malformed
  /-- The bytes are no text. -/
  | encoding
  /-- A whole number has more digits than are read. -/
  | tooManyDigits
  /-- Lists and objects stand deeper inside one another than they are read. -/
  | tooDeep
deriving DecidableEq, Repr

/-- What a failure counts as in a dialect. -/
def Dialect.reason (dialect : Dialect) (error : ReadError) : ReadError :=
  if dialect.tellsReasons then error else .malformed

section
variable (dialect : Dialect)

/-- The value of a number. -/
def ofNumber (token : NumberToken) : Except ReadError Json :=
  if token.isWhole && (dialect.wideIntegers || fits64 token.integer) then
    if dialect.maxDigits.any (· < token.whole.length) then .error .tooManyDigits
    else .ok (.int token.integer)
  else
    match token.double with
    | .infinite negative =>
      if dialect.nonFinite then .ok (.float (.infinite negative)) else .error .malformed
    | value => .ok (.float value)

/-- The words of the dialect with the values they stand for. -/
def words : List (Text × Json) :=
  [("null".toList, .null), ("true".toList, .bool true), ("false".toList, .bool false)] ++
  if dialect.nonFinite then
    [("NaN".toList, .float .nan), ("Infinity".toList, .float (.infinite false)),
      ("-Infinity".toList, .float (.infinite true))]
  else []

/-- The word or number that starts here. -/
def readPlain (t : Text) : Except ReadError (Json × Text) :=
  match (words dialect).findSome? fun (word, value) => (dropWord? word t).map (value, ·) with
  | some read => .ok read
  | none =>
    match readNumber t with
    | none => .error .malformed
    | some (token, rest) => do return (← ofNumber dialect token, rest)

/-- The key that starts here, with the text behind its colon. -/
def readKey (t : Text) : Except ReadError (String × Text) :=
  match skipSpaces t with
  | '\x22' :: body =>
    match readString dialect.loneSurrogates body with
    | none => .error .malformed
    | some (key, rest) =>
      match skipSpaces rest with
      | ':' :: behind => .ok (String.ofList key, behind)
      | _ => .error .malformed
  | _ => .error .malformed

mutual

/-- The value that starts here, blanks in front of it left out. As many lists and objects as `room`
says may stand inside one another; the fuel bounds the number of values and lists of values
begun. -/
def readValue (room : Nat) : Nat → Text → Except ReadError (Json × Text)
  | 0, _ => .error .malformed
  | fuel + 1, t =>
    match skipSpaces t with
    | '\x22' :: body =>
      match readString dialect.loneSurrogates body with
      | none => .error .malformed
      | some (value, rest) => .ok (.str (String.ofList value), rest)
    | '[' :: body =>
      match room, skipSpaces body with
      | 0, _ => .error .tooDeep
      | _, ']' :: rest => .ok (.arr [], rest)
      | inner + 1, _ => do
        let (items, rest) ← readItems inner fuel body
        return (.arr items, rest)
    | '\x7b' :: body =>
      match room, skipSpaces body with
      | 0, _ => .error .tooDeep
      | _, '\x7d' :: rest => .ok (.obj [], rest)
      | inner + 1, _ => do
        let (fields, rest) ← readFields inner fuel [] body
        return (.obj fields, rest)
    | plain => readPlain dialect plain

/-- The items of a list, up to its closing bracket. -/
def readItems (room : Nat) : Nat → Text → Except ReadError (List Json × Text)
  | 0, _ => .error .malformed
  | fuel + 1, t => do
    let (item, behind) ← readValue room fuel t
    match skipSpaces behind with
    | ']' :: rest => return ([item], rest)
    | ',' :: others => do
      let (items, rest) ← readItems room fuel others
      return (item :: items, rest)
    | _ => throw .malformed

/-- The fields of an object, added to those before them, up to its closing brace. -/
def readFields (room : Nat) :
    Nat → List (String × Json) → Text → Except ReadError (List (String × Json) × Text)
  | 0, _, _ => .error .malformed
  | fuel + 1, fields, t => do
    let (key, body) ← readKey dialect t
    let (value, behind) ← readValue room fuel body
    match skipSpaces behind with
    | '\x7d' :: rest => return (setField key value fields, rest)
    | ',' :: others => readFields room fuel (setField key value fields) others
    | _ => throw .malformed

end

/-- The value that is the whole of a text. Every value and every list of values begun takes a
character of its own, so twice the length of the text is fuel enough. -/
def readAll (t : Text) : Except ReadError Json := do
  let (value, rest) ← readValue dialect dialect.readDepth (2 * t.length + 2) t
  if (skipSpaces rest).isEmpty then return value else throw .malformed

/-- The value that a text spells. -/
def parse (t : Text) : Except ReadError Json := (readAll dialect t).mapError dialect.reason

/-- The value of a file. -/
def read (bytes : ByteArray) : Except ReadError Json :=
  match if dialect.guessesEncoding then Text.ofGuessed? bytes else Text.ofUtf8? bytes with
  | some t => parse dialect t
  | none => .error (dialect.reason .encoding)

end

end TracedText.Json
