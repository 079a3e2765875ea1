import TracedText.Bisect
import TracedText.RangeError
import TracedText.Text.Basic

/-! # Traced buffers

A buffer is a text with points. A point ties an offset of the text to the place where the text at
that offset came from. A buffer is consistent when its points lie in its text and stand in the order
of their offsets; points at one offset keep the order they were given in.

`Buffer.ofPoints` makes a consistent buffer, `Buffer.slice` copies a part of one with the points in
it and at both its ends, and `Buffer.replaced` puts one buffer in the place of a part of another.
Points are found by binary search, which relies on their order. -/

namespace TracedText

/-- An offset of a text and the place it came from. -/
structure Point where
  offset : Int
  source : Option String
  line : Option Int
  column : Option Int
  name : String
deriving DecidableEq, Repr

namespace Point

/-- The point moved by a number of characters. -/
def shift (delta : Int) (p : Point) : Point := { p with offset := p.offset + delta }

@[simp] theorem shift_zero (p : Point) : p.shift 0 = p := by simp [shift]

@[simp] theorem shift_shift (a b : Int) (p : Point) : (p.shift a).shift b = p.shift (a + b) := by
  simp [shift, Int.add_assoc]

/-- The points in the order of their offsets. -/
def sort (points : List Point) : List Point :=
  points.mergeSort fun p q => decide (p.offset ≤ q.offset)

/-- No point stands behind one of a greater offset. -/
def inOrder : List Point → Bool
  | p :: q :: rest => p.offset ≤ q.offset && inOrder (q :: rest)
  | _ => true

/-- The point lies in a text of the given length, its end included. -/
def inside (length : Nat) (p : Point) : Bool := 0 ≤ p.offset && p.offset ≤ length

/-- The number of points in front of an offset. -/
def countBefore (offset : Int) (points : List Point) : Nat :=
  bisect (fun p => p.offset < offset) points

/-- The number of points in front of an offset or at it. -/
def countUpTo (offset : Int) (points : List Point) : Nat :=
  bisect (fun p => p.offset ≤ offset) points

/-- The points with a batch of others put in as a whole, in front of the first that is not in front
of the batch. -/
def merge (batch points : List Point) : List Point :=
  match batch with
  | [] => points
  | first :: _ =>
    let place := countBefore first.offset points
    points.take place ++ batch ++ points.drop place

end Point

/-- A text and its points. -/
structure Buffer where
  text : Text
  points : List Point
deriving DecidableEq, Repr

namespace Buffer

/-- The points stand in the order of their offsets and lie in the text. -/
structure Consistent (b : Buffer) : Prop where
  ordered : b.points.Pairwise fun p q => p.offset ≤ q.offset
  inside : ∀ p ∈ b.points, 0 ≤ p.offset ∧ p.offset ≤ b.text.length

/-! ### Making buffers -/

/-- A text without points. -/
def ofText (text : Text) : Buffer := ⟨text, []⟩

theorem ofText_consistent (text : Text) : (ofText text).Consistent :=
  ⟨.nil, by simp [ofText]⟩

/-- The buffer of a text with points in any order, if all of them lie in the text. -/
def ofPoints (text : Text) (points : List Point) : Except RangeError Buffer :=
  match (Point.sort points).find? fun p => !p.inside text.length with
  | some p => .error (.pointOutside p.offset text.length)
  | none => .ok ⟨text, Point.sort points⟩

variable (b : Buffer)

/-! ### Slices -/

/-- The part between two offsets that are in order and in the text. -/
def part (start stop : Nat) : Buffer :=
  ⟨(b.text.take stop).drop start,
    ((b.points.take (Point.countUpTo stop b.points)).drop (Point.countBefore start b.points)).map
      (Point.shift (-start))⟩

/-- The part between two offsets. -/
def slice (start stop : Int) : Except RangeError Buffer :=
  if start < 0 || stop < start || b.text.length < stop then
    .error (.slice start stop b.text.length)
  else .ok (b.part start.toNat stop.toNat)

/-! ### Splices -/

/-- The buffer with another one in place of its characters from `start` up to `stop`. Points in
front of this span stay and those in it go; those at its end or behind move with the text. The
points of the other buffer are put in as one batch. -/
def replaced (start stop : Nat) (inserted : Buffer) : Buffer :=
  let kept := b.points.take (Point.countBefore start b.points)
  let moved := (b.points.drop (Point.countBefore stop b.points)).map
    (Point.shift (inserted.text.length - (stop - start : Nat)))
  ⟨b.text.take start ++ inserted.text ++ b.text.drop stop,
    Point.merge (inserted.points.map (Point.shift start)) (kept ++ moved)⟩

/-- The check of a span of `count` characters from `offset` on: it lies in the text. -/
def checkSpan (offset count : Int) : Except RangeError Unit :=
  if offset < 0 then .error (.spliceOffset offset)
  else if count < 0 then .error (.spliceLength count)
  else if b.text.length < offset + count then
    .error (.spliceEnd (offset + count) b.text.length)
  else .ok ()

/-- The buffer with another one in place of `count` characters from `offset` on. -/
def replace (offset count : Int) (inserted : Buffer) : Except RangeError Buffer := do
  b.checkSpan offset count
  return b.replaced offset.toNat (offset + count).toNat inserted

/-- The buffer without `count` characters from `offset` on. -/
def delete (offset count : Int) : Except RangeError Buffer := b.replace offset count (ofText [])

end Buffer

end TracedText
