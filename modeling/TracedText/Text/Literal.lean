import TracedText.Text.Printable
import TracedText.Text.Basic

/-! # Quoted literals

Messages show a text between quotes, with everything that would not be legible written as an
escape. `Text.literal` writes the quoted form: apostrophes are the quotes, unless the text holds an
apostrophe and no double quote. -/

namespace TracedText

/-- The lower-case hexadecimal digits of a number, filled up with zeros to a width. -/
def hexDigits (width n : Nat) : Text :=
  let digits := Nat.toDigits 16 n
  List.replicate (width - digits.length) '0' ++ digits

/-- A character as it stands in a literal between the given quotes. -/
def literalChar (quote c : Char) : Text :=
  if c == quote || c == '\x5c' then ['\x5c', c]
  else if c == '\n' then ['\x5c', 'n']
  else if c == '\r' then ['\x5c', 'r']
  else if c == '\t' then ['\x5c', 't']
  else if isPrinting c then [c]
  else if c.toNat < 0x100 then '\x5c' :: 'x' :: hexDigits 2 c.toNat
  else if c.toNat < 0x10000 then '\x5c' :: 'u' :: hexDigits 4 c.toNat
  else '\x5c' :: 'U' :: hexDigits 8 c.toNat

namespace Text
variable (t : Text)

/-- The quote around the literal of a text. -/
def literalQuote : Char :=
  if t.contains '\x27' && !t.contains '\x22' then '\x22' else '\x27'

/-- The text as a quoted literal. -/
def literal : Text :=
  t.literalQuote :: (t.flatMap (literalChar t.literalQuote) ++ [t.literalQuote])

end Text

end TracedText
