import TracedText.Proofs.Coordinates
import TracedText.Proofs.Messages
import TracedText.Proofs.Slices

/-! # Parts of parts

A slice is exact: it holds what stands between its bounds, and the points that are between them or at
one of them.  So a slice of a slice is a slice of the whole (`part_part`), and `slice_exact` says what
a slice comes to for all bounds. -/

namespace TracedText

/-! ### Bounds that are told -/

theorem RangeError.slice_message_sayable_iff {start stop : ℤ} {length : ℕ} :
    (RangeError.slice start stop length).message.Sayable ↔
      start.natAbs < Nat.pow 10 Bounds.digits ∧ stop.natAbs < Nat.pow 10 Bounds.digits ∧
        length < Nat.pow 10 Bounds.digits := by
  simp only [message, Message.sayable_cons, Message.sayable_nil, Piece.sayable_words,
    Piece.sayable_natCast, true_and, and_true]
  rfl

namespace Buffer
variable {b : Buffer}

section
variable {start stop first last : ℕ}

theorem part_part_text (hlast : last ≤ stop - start) (h : start ≤ stop) :
    ((b.part start stop).part first last).text = (b.part (start + first) (start + last)).text := by
  show (((b.text.take stop).drop start).take last).drop first =
    (b.text.take (start + last)).drop (start + first)
  rw [List.take_drop, List.drop_drop, List.take_take, min_eq_left (by omega)]

/-- **A part of a part is a part of the whole**, with the points at its ends. -/
theorem part_part (hb : b.Consistent) (h : start ≤ stop) (hstop : stop ≤ b.text.length)
    (hfirst : first ≤ last) (hlast : last ≤ stop - start) :
    (b.part start stop).part first last = b.part (start + first) (start + last) := by
  have hpart := part_consistent hb h hstop
  have hshift : -(start : ℤ) + -(first : ℤ) = -((start + first : ℕ) : ℤ) := by omega
  refine congrArg₂ Buffer.mk (part_part_text hlast h) ?_
  show ((b.part start stop).part first last).points = (b.part (start + first) (start + last)).points
  rw [part_points hpart hfirst, part_points hb h, part_points hb (by omega), List.filter_map,
    List.map_map, Point.shift_comp_shift, List.filter_filter, hshift]
  refine congrArg _ (List.filter_congr fun p _ => ?_)
  rw [Bool.eq_iff_iff, Bool.and_eq_true]
  simp only [Function.comp_apply, decide_eq_true_eq]
  simp only [Point.shift]
  omega

end

/-- **Slices are exact and compose.**  A slice fails exactly when its bounds are out of order or
outside the text, and is told so in words if all its numbers have any.  Else it is the text between
the bounds with the points between and at them, which move with the text; and a slice of it is the
slice of the buffer itself between the same places. -/
theorem slice_exact (hb : b.Consistent) (start stop : ℤ) :
    let error := RangeError.slice start stop b.text.length
    (¬(0 ≤ start ∧ start ≤ stop ∧ stop ≤ b.text.length) → b.slice start stop = .error error ∧
      (start.natAbs < Nat.pow 10 Bounds.digits → stop.natAbs < Nat.pow 10 Bounds.digits →
        b.text.length < Nat.pow 10 Bounds.digits →
        (Failure.range error).told = (.range error, some error.message.said))) ∧
    (0 ≤ start ∧ start ≤ stop ∧ stop ≤ b.text.length → ∃ part : Buffer,
      b.slice start stop = .ok part ∧
      part.text = b.text.slice start stop ∧
      part.points = (b.points.filter fun p => start ≤ p.offset ∧ p.offset ≤ stop).map
        (Point.shift (-start)) ∧
      part.Consistent ∧
      ∀ first last : ℤ, 0 ≤ first → first ≤ last → last ≤ stop - start →
        ∃ inner : Buffer, part.slice first last = .ok inner ∧
          b.slice (start + first) (start + last) = .ok inner) := by
  intro error
  refine ⟨fun hout => ?_, fun hin => ?_⟩
  · refine ⟨slice_of_outside hout, fun hstart hstop hlength => ?_⟩
    exact Failure.told_said rfl (RangeError.slice_message_sayable_iff.mpr ⟨hstart, hstop, hlength⟩)
  · obtain ⟨hstart, hle, hstop⟩ := hin
    lift start to ℕ using hstart
    lift stop to ℕ using by omega
    have hle' : start ≤ stop := Int.ofNat_le.mp hle
    have hstop' : stop ≤ b.text.length := Int.ofNat_le.mp hstop
    refine ⟨b.part start stop, slice_natCast hle' hstop', (Text.slice_natCast b.text start stop).symm,
      part_points hb hle', part_consistent hb hle' hstop', ?_⟩
    intro first last hfirst hinner hlast
    lift first to ℕ using hfirst
    lift last to ℕ using by omega
    have hlength := part_length start hstop'
    refine ⟨(b.part start stop).part first last, slice_natCast (by omega) (by omega), ?_⟩
    rw [part_part hb hle' hstop' (by omega) (by omega)]
    exact slice_natCast (by omega) (by omega)

/-- Four letters with several points at the same places. -/
def crowded : Buffer :=
  ⟨['a', 'b', 'c', 'd'], [⟨0, none, none, none, "0"⟩, ⟨1, some "s", some 1, some 0, "1"⟩,
    ⟨1, some "s", some 1, some 1, "2"⟩, ⟨3, some "s", some 2, none, "3"⟩, ⟨3, none, none, none, "4"⟩,
    ⟨4, none, none, none, "5"⟩]⟩

theorem slice_exact_crowded :
    crowded.Consistent ∧ ∃ part inner : Buffer, crowded.slice 1 3 = .ok part ∧
      part.text = ['b', 'c'] ∧ part.points.map (·.name) = ["1", "2", "3", "4"] ∧
      part.slice 1 2 = .ok inner ∧ crowded.slice 2 3 = .ok inner ∧
      crowded.slice 3 1 = .error (.slice 3 1 4) ∧
      (Failure.range (.slice 3 1 4)).told =
        (.range (.slice 3 1 4), some (RangeError.slice 3 1 4).message.said) := by
  have hcrowded : crowded.Consistent := ⟨by decide, by decide⟩
  obtain ⟨part, hpart, htext, hpoints, -, hcompose⟩ := (slice_exact hcrowded 1 3).2 (by decide)
  obtain ⟨inner, hinner, hwhole⟩ := hcompose 1 2 (by decide) (by decide) (by decide)
  obtain ⟨herror, htold⟩ := (slice_exact hcrowded 3 1).1 (by decide)
  refine ⟨hcrowded, part, inner, hpart, htext.trans (by decide), ?_, hinner, hwhole, herror,
    htold (lt_pow_digits (by decide)) (lt_pow_digits (by decide)) (lt_pow_digits (by decide))⟩
  rw [hpoints]
  decide

end Buffer

end TracedText
