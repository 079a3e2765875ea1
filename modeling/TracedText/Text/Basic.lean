/-! # Texts and positions

A text is the list of its characters, and every offset, length and bound counts characters.
Positions are integers, because scans and slices also answer to positions outside the text: a
negative position counts from the end. `slice` never fails, since it clamps its bounds; `charAt`
and `onward` refuse a position at which the text has no character to start from. -/

namespace TracedText

/-- A text is the list of its characters. -/
abbrev Text := List Char

/-- The failure of reading a character at a position where the text has none. -/
structure OutOfText where
  position : Int
deriving DecidableEq, Repr

/-- A space or a tab. -/
def isBlank (c : Char) : Bool := c == ' ' || c == '\t'

/-- A carriage return or a line feed. -/
def isTerminator (c : Char) : Bool := c == '\r' || c == '\n'

namespace Text
variable (t : Text)

/-! ### Slices -/

/-- The offset that a slice bound stands for: a negative bound counts from the end, and every
bound is clamped into the text. -/
def bound (pos : Int) : Nat :=
  if pos < 0 then (t.length + pos).toNat else min pos.toNat t.length

/-- The characters from `start` up to `stop`; nothing when the bounds are not in order. -/
def slice (start stop : Int) : Text := (t.take (t.bound stop)).drop (t.bound start)

/-- The characters from `start` on. -/
def sliceFrom (start : Int) : Text := t.drop (t.bound start)

/-- The characters before `stop`. -/
def sliceTo (stop : Int) : Text := t.take (t.bound stop)

@[simp] theorem bound_natCast (n : Nat) : t.bound n = min n t.length := by
  rw [bound, if_neg (by omega), Int.toNat_natCast]

/-- Between bounds that are not negative a slice is what stands there, whether or not they lie in the
text. -/
theorem slice_natCast (start stop : Nat) : t.slice start stop = (t.take stop).drop start := by
  have htake : t.take (min stop t.length) = t.take stop := by
    rw [← List.take_take, List.take_length]
  have hdrop : (t.take stop).drop (min start t.length) = (t.take stop).drop start := by
    rcases Nat.le_total start t.length with h | h
    · rw [Nat.min_eq_left h]
    · rw [Nat.min_eq_right h, List.drop_eq_nil_of_le (List.length_take_le' stop t),
        List.drop_eq_nil_of_le (Nat.le_trans (List.length_take_le' stop t) h)]
  rw [slice, bound_natCast, bound_natCast, htake, hdrop]

theorem sliceFrom_natCast (n : Nat) : t.sliceFrom n = t.drop n := by
  rw [sliceFrom, bound_natCast]
  rcases Nat.le_total n t.length with h | h
  · rw [Nat.min_eq_left h]
  · rw [Nat.min_eq_right h, List.drop_length, List.drop_eq_nil_of_le h]

/-! ### Single positions -/

/-- The character at a position; a negative position counts from the end. -/
def charAt (pos : Int) : Except OutOfText Char :=
  match if pos < 0 then
      if -(t.length : Int) ≤ pos then t[(t.length + pos).toNat]? else none
    else t[pos.toNat]? with
  | some c => .ok c
  | none => .error ⟨pos⟩

theorem charAt_natCast {t : Text} {n : Nat} {c : Char} (h : t[n]? = some c) :
    t.charAt n = .ok c := by
  rw [charAt, if_neg (by omega), Int.toNat_natCast, h]

/-- The characters met by stepping on from a position. A negative position runs through the end
of the text first and then, having reached zero, through the whole text. -/
def onward (pos : Int) : Except OutOfText Text :=
  if 0 ≤ pos then .ok (t.drop pos.toNat)
  else if -(t.length : Int) ≤ pos then .ok (t.drop (t.length + pos).toNat ++ t)
  else .error ⟨pos⟩

theorem onward_natCast (n : Nat) : t.onward n = .ok (t.drop n) := by
  simp [onward]

end Text

end TracedText
