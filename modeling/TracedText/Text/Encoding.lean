import TracedText.Text.Basic

/-! # Texts as bytes

Texts are stored as UTF-8. `Text.toUtf8` writes a text and `Text.ofUtf8?` reads it back, refusing
bytes that are no UTF-8. A mark at the front is a character like any other.

A lenient reader also takes documents in UTF-16 and UTF-32. `Encoding.guess` tells the encoding
from a byte-order mark or from where the first bytes are zero, and `Encoding.decode?` decodes.

A text here is a list of characters, and none of them is a surrogate. A surrogate that has no partner
is taken for the replacement character. This is a restriction of these texts: a reader whose strings
hold surrogates keeps it, and strings that it tells apart by such surrogates alone become one here. -/

namespace TracedText

/-! ### UTF-8 -/

namespace Text

/-- The UTF-8 bytes of a text. -/
def toUtf8 (t : Text) : ByteArray := (String.ofList t).toUTF8

/-- The text that the bytes hold, if they are UTF-8. -/
def ofUtf8? (bytes : ByteArray) : Option Text := (String.fromUTF8? bytes).map String.toList

@[simp] theorem ofUtf8?_toUtf8 (t : Text) : ofUtf8? t.toUtf8 = some t := by
  have h (s : String) : String.fromUTF8? s.toUTF8 = some s := by
    simp [String.fromUTF8?, String.fromUTF8, s.isValidUTF8]
  rw [ofUtf8?, toUtf8, h, Option.map_some, String.toList_ofList]

end Text

/-- The bytes with each three-byte form of a surrogate replaced by that of the replacement
character, the nearest that a text can hold. No other UTF-8 form holds the byte that these start
with. -/
def replaceSurrogates : List UInt8 → List UInt8
  | 0xED :: b :: c :: rest =>
    if 0xA0 ≤ b && b ≤ 0xBF && 0x80 ≤ c && c ≤ 0xBF then
      0xEF :: 0xBF :: 0xBD :: replaceSurrogates rest
    else 0xED :: replaceSurrogates (b :: c :: rest)
  | b :: rest => b :: replaceSurrogates rest
  | [] => []

/-- The text that the bytes hold, if they are UTF-8 in which surrogates may stand alone; which ones
do is lost. -/
def Text.ofLooseUtf8? (bytes : ByteArray) : Option Text :=
  match ofUtf8? bytes with
  | some t => some t
  | none => ofUtf8? ⟨⟨replaceSurrogates bytes.data.toList⟩⟩

/-! ### UTF-16 and UTF-32 -/

/-- The order of the bytes of a unit. -/
inductive ByteOrder where
  | bigEndian
  | littleEndian
deriving DecidableEq, Repr

/-- The number that the bytes of a unit stand for. -/
def ByteOrder.value (order : ByteOrder) (bytes : List UInt8) : Nat :=
  match order with
  | .bigEndian => bytes.foldl (fun n b => 256 * n + b.toNat) 0
  | .littleEndian => bytes.foldr (fun b n => 256 * n + b.toNat) 0

/-- The 16-bit units of the bytes; none when a byte is left over. -/
def units16? (order : ByteOrder) : List UInt8 → Option (List Nat)
  | [] => some []
  | a :: b :: rest => (units16? order rest).map (order.value [a, b] :: ·)
  | _ => none

/-- The 32-bit units of the bytes; none when bytes are left over. -/
def units32? (order : ByteOrder) : List UInt8 → Option (List Nat)
  | [] => some []
  | a :: b :: c :: d :: rest => (units32? order rest).map (order.value [a, b, c, d] :: ·)
  | _ => none

/-- Whether a unit is the first half of a surrogate pair. -/
def isHighSurrogate (n : Nat) : Bool := 0xD800 ≤ n && n ≤ 0xDBFF

/-- Whether a unit is the second half of a surrogate pair. -/
def isLowSurrogate (n : Nat) : Bool := 0xDC00 ≤ n && n ≤ 0xDFFF

/-- The character of a surrogate pair. -/
def pairedChar (high low : Nat) : Char :=
  Char.ofNat (0x10000 + (high - 0xD800) * 0x400 + (low - 0xDC00))

/-- The character of a code point. For want of a character, every surrogate is taken for the
replacement character. -/
def scalarChar (n : Nat) : Char :=
  if isHighSurrogate n || isLowSurrogate n then '\uFFFD' else Char.ofNat n

/-- The text of 16-bit units, in which surrogates may stand alone; which ones do is lost. -/
def textOfUnits16 : List Nat → Text
  | [] => []
  | high :: low :: rest =>
    if isHighSurrogate high && isLowSurrogate low then pairedChar high low :: textOfUnits16 rest
    else scalarChar high :: textOfUnits16 (low :: rest)
  | [n] => [scalarChar n]

/-- The text of 32-bit units, if each is a code point. -/
def textOfUnits32? (points : List Nat) : Option Text :=
  points.mapM fun n => if n ≤ 0x10FFFF then some (scalarChar n) else none

/-! ### Guessing the encoding -/

/-- An encoding of Unicode text. -/
inductive Encoding where
  | utf8
  | utf16 (order : ByteOrder)
  | utf32 (order : ByteOrder)
deriving DecidableEq, Repr

namespace Encoding

/-- The encoding of a document that starts with an ASCII character, told from its zero bytes. -/
def ofZeros : List UInt8 → Encoding
  | 0 :: 0 :: _ :: _ :: _ => .utf32 .bigEndian
  | 0 :: _ :: _ :: _ :: _ => .utf16 .bigEndian
  | _ :: 0 :: 0 :: 0 :: _ => .utf32 .littleEndian
  | _ :: 0 :: _ :: _ :: _ => .utf16 .littleEndian
  | [0, _] => .utf16 .bigEndian
  | [_, 0] => .utf16 .littleEndian
  | _ => .utf8

/-- The encoding of a document, with its bytes behind the byte-order mark. -/
def guess (bytes : List UInt8) : Encoding × List UInt8 :=
  match bytes with
  | 0x00 :: 0x00 :: 0xFE :: 0xFF :: rest => (.utf32 .bigEndian, rest)
  | 0xFF :: 0xFE :: 0x00 :: 0x00 :: rest => (.utf32 .littleEndian, rest)
  | 0xFE :: 0xFF :: rest => (.utf16 .bigEndian, rest)
  | 0xFF :: 0xFE :: rest => (.utf16 .littleEndian, rest)
  | 0xEF :: 0xBB :: 0xBF :: rest => (.utf8, rest)
  | _ => (ofZeros bytes, bytes)

/-- The text of the bytes, if they follow the encoding. -/
def decode? (encoding : Encoding) (bytes : List UInt8) : Option Text :=
  match encoding with
  | .utf8 => Text.ofLooseUtf8? ⟨⟨bytes⟩⟩
  | .utf16 order => (units16? order bytes).map textOfUnits16
  | .utf32 order => (units32? order bytes).bind textOfUnits32?

end Encoding

/-- The text of a document in whatever Unicode encoding it seems to be in. -/
def Text.ofGuessed? (bytes : ByteArray) : Option Text :=
  let (encoding, rest) := Encoding.guess bytes.data.toList
  encoding.decode? rest

end TracedText
