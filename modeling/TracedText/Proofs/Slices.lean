import Mathlib
import TracedText.Proofs.Compositions

/-! # Slices put back

A slice holds the points at both its ends, while a splice takes away those at the start of its span
and leaves those at the end.  So a part that is replaced and then put back is there again with all
its points (`splice_slice`): no point is lost or moved, those at the end of the part are there twice,
and between the two stand those that were at the end of what had replaced the part. -/

namespace TracedText

/-! ### Points around an offset -/

namespace Point
variable {points : List Point}

theorem filter_le_append_filter_lt (h : points.Pairwise fun p q => p.offset ≤ q.offset)
    (offset : ℤ) : (points.filter fun p => p.offset ≤ offset) ++
      (points.filter fun p => offset < p.offset) = points := by
  have hcut := filter_lt_append_filter_le h (offset + 1)
  simpa only [Int.lt_add_one_iff, Int.add_one_le_iff] using hcut

theorem filter_lt_append_filter_between (h : points.Pairwise fun p q => p.offset ≤ q.offset)
    {start stop : ℤ} (hle : start ≤ stop) :
    (points.filter fun p => p.offset < start) ++
        (points.filter fun p => start ≤ p.offset ∧ p.offset ≤ stop) =
      points.filter fun p => p.offset ≤ stop := by
  have hcut := filter_lt_append_filter_le (h.filter fun p => decide (p.offset ≤ stop)) start
  rw [List.filter_filter, List.filter_filter] at hcut
  rw [← hcut]
  refine congrArg₂ _ (List.filter_congr fun p _ => ?_) (List.filter_congr fun p _ => ?_)
  · rw [← Bool.decide_and, decide_eq_decide]
    omega
  · rw [← Bool.decide_and]

theorem filter_eq_append_filter_lt (h : points.Pairwise fun p q => p.offset ≤ q.offset)
    (offset : ℤ) : (points.filter fun p => p.offset = offset) ++
        (points.filter fun p => offset < p.offset) =
      points.filter fun p => offset ≤ p.offset := by
  have hcut := filter_le_append_filter_lt (h.filter fun p => decide (offset ≤ p.offset)) offset
  rw [List.filter_filter, List.filter_filter] at hcut
  rw [← hcut]
  refine congrArg₂ _ (List.filter_congr fun p _ => ?_) (List.filter_congr fun p _ => ?_)
  · rw [← Bool.decide_and, decide_eq_decide]
    omega
  · rw [← Bool.decide_and, decide_eq_decide]
    omega

section
variable (h : points.Pairwise fun p q => p.offset ≤ q.offset) (offset : ℤ) (extra : List Point)
include h

/-- Points that are cut behind an offset and in front of it, with others between the two parts, are
there in their order. -/
theorem sublist_between : points.Sublist ((points.filter fun p => p.offset ≤ offset) ++ extra ++
    (points.filter fun p => offset ≤ p.offset)) := by
  have hrear : (points.filter fun p => offset < p.offset).Sublist
      (points.filter fun p => offset ≤ p.offset) :=
    List.monotone_filter_right points fun p hp => decide_eq_true (of_decide_eq_true hp).le
  conv => lhs; rw [← filter_le_append_filter_lt h offset]
  exact (List.sublist_append_left _ _).append hrear

theorem perm_between : ((points.filter fun p => p.offset ≤ offset) ++ extra ++
    (points.filter fun p => offset ≤ p.offset)).Perm
      (points ++ (extra ++ points.filter fun p => p.offset = offset)) := by
  conv => rhs; lhs; rw [← filter_le_append_filter_lt h offset]
  rw [← filter_eq_append_filter_lt h offset, List.append_assoc, ← List.append_assoc extra,
    List.append_assoc (points.filter _)]
  exact List.perm_append_comm.append_left _

theorem between_eq_iff : ((points.filter fun p => p.offset ≤ offset) ++ extra ++
    (points.filter fun p => offset ≤ p.offset)) = points ↔
      extra = [] ∧ (points.filter fun p => p.offset = offset) = [] := by
  rw [← List.append_eq_nil_iff]
  constructor
  · intro hsame
    have hlength := (perm_between h offset extra).length_eq
    rw [hsame, List.length_append] at hlength
    exact List.eq_nil_of_length_eq_zero (by omega)
  · intro hnone
    obtain ⟨hextra, hat⟩ := List.append_eq_nil_iff.mp hnone
    rw [← filter_eq_append_filter_lt h offset, hat, hextra, List.nil_append, List.append_nil,
      filter_le_append_filter_lt h offset]

end

end Point

namespace Buffer

/-- The points at an offset. -/
def pointsAt (b : Buffer) (offset : ℤ) : List Point := b.points.filter fun p => p.offset = offset

/-- The points at the end of the buffer, moved to an offset. -/
def endsAt (b : Buffer) (offset : ℤ) : List Point :=
  (b.pointsAt b.text.length).map fun p => { p with offset := offset }

variable {a b : Buffer}

theorem pointsAt_eq_nil_iff {offset : ℤ} :
    b.pointsAt offset = [] ↔ ∀ p ∈ b.points, p.offset ≠ offset := by
  simp [pointsAt, List.filter_eq_nil_iff]

theorem endsAt_eq_nil_iff {offset : ℤ} : b.endsAt offset = [] ↔ b.EndFree := by
  rw [endsAt, List.map_eq_nil_iff, pointsAt_eq_nil_iff, EndFree]

theorem endsAt_shift (offset delta : ℤ) :
    (b.endsAt offset).map (Point.shift delta) = b.endsAt (offset + delta) := by
  rw [endsAt, List.map_map, endsAt]
  exact List.map_congr_left fun p _ => rfl

/-! ### Putting a part back -/

theorem part_length (start : ℕ) {stop : ℕ} (hstop : stop ≤ a.text.length) :
    (a.part start stop).text.length = stop - start := by
  rw [part, List.length_drop, List.length_take, min_eq_left hstop]

section
variable {start stop : ℕ}

theorem part_text_between (h : start ≤ stop) :
    a.text.take start ++ (a.part start stop).text ++ a.text.drop stop = a.text := by
  have hfront : a.text.take start = (a.text.take stop).take start := by
    rw [List.take_take, min_eq_left h]
  rw [hfront, part, List.take_append_drop, List.take_append_drop]

theorem part_points_shift (ha : a.Consistent) (h : start ≤ stop) :
    (a.part start stop).points.map (Point.shift start) =
      a.points.filter fun p => (start : ℤ) ≤ p.offset ∧ p.offset ≤ (stop : ℤ) := by
  rw [part_points ha h, List.map_map, Point.shift_comp_shift, neg_add_cancel, Point.map_shift_zero]

/-- What is put in for the whole of a buffer stands in front of the points at its end. -/
theorem replaced_all {inserted : Buffer} (hb : b.Consistent) (hi : inserted.Consistent) :
    b.replaced 0 b.text.length inserted =
      ⟨inserted.text, inserted.points ++ b.endsAt inserted.text.length⟩ := by
  have hnone : (b.points.filter fun p => p.offset < ((0 : ℕ) : ℤ)) = [] := by
    rw [List.filter_eq_nil_iff]
    intro p hp
    have := (hb.inside p hp).1
    simp only [decide_eq_true_eq]
    omega
  have hend : (b.points.filter fun p => (b.text.length : ℤ) ≤ p.offset) =
      b.pointsAt b.text.length := by
    refine List.filter_congr fun p hp => ?_
    have := (hb.inside p hp).2
    rw [decide_eq_decide]
    omega
  have hmoved : (b.pointsAt b.text.length).map
      (Point.shift (inserted.text.length - (b.text.length - 0 : ℕ))) =
        b.endsAt inserted.text.length := by
    refine List.map_congr_left fun p hp => ?_
    have hoffset : p.offset = b.text.length := of_decide_eq_true (List.mem_filter.mp hp).2
    simp only [Point.shift, hoffset]
    congr 1
    omega
  refine congrArg₂ Buffer.mk ?_ ?_
  · rw [List.take_zero, List.drop_length, List.nil_append, List.append_nil]
  · show (b.replaced 0 b.text.length inserted).points = _
    rw [replaced_points hb hi (Nat.zero_le _), hnone, hend, hmoved, Nat.cast_zero,
      Point.map_shift_zero, List.nil_append]

/-- A part that was replaced and is put back, where it was, leaves behind it what was at the end of
the other buffer, and then the points at its own end once more. -/
theorem replaced_part (ha : a.Consistent) (hb : b.Consistent) (h : start ≤ stop)
    (hstop : stop ≤ a.text.length) :
    (a.replaced start stop b).replaced start (start + b.text.length) (a.part start stop) =
      ⟨a.text, (a.points.filter fun p => p.offset ≤ (stop : ℤ)) ++ b.endsAt stop ++
        (a.points.filter fun p => (stop : ℤ) ≤ p.offset)⟩ := by
  have hpart := part_consistent ha h hstop
  have hlength := part_length start hstop
  -- The part is put in for all of the other buffer, which stands in its place.
  have hnested := replaced_nested ha hb hpart h hstop (Nat.zero_le b.text.length) (le_refl _)
  have hinside := replaced_consistent hb hpart (Nat.zero_le b.text.length) (le_refl _)
  have hplace : ((stop - start : ℕ) : ℤ) + start = stop := by omega
  rw [replaced_all hb hpart] at hnested hinside
  rw [Nat.add_zero] at hnested
  refine hnested.trans (congrArg₂ Buffer.mk (part_text_between h) ?_)
  show (a.replaced start stop _).points = _
  rw [replaced_points ha hinside h]
  simp only [List.map_append, part_points_shift ha h, endsAt_shift, hlength, hplace, sub_self,
    Point.map_shift_zero]
  rw [← List.append_assoc, Point.filter_lt_append_filter_between ha.ordered (by omega)]

end

/-- **Putting a slice back undoes an edit.**  The text is as it was, and so are the points, save that
at the end of the part there stand besides those at the end of what had replaced it, and once more
those of the buffer itself; so all is as it was just when there are none of either. -/
theorem splice_slice (ha : a.Consistent) {insertion : Insertion}
    (hinsertion : insertion.toBuffer = .ok b) (hb : insertion.Consistent) {offset count : ℤ}
    (hoffset : 0 ≤ offset) (hcount : 0 ≤ count) (hstop : offset + count ≤ a.text.length) :
    ∃ part restored : Buffer, a.slice offset (offset + count) = .ok part ∧
      (a.splice offset count insertion >>= (·.splice offset b.text.length (.buffer part))) =
        .ok restored ∧
      restored.text = a.text ∧
      restored.points = (a.points.filter fun p => p.offset ≤ offset + count) ++
        b.endsAt (offset + count) ++ (a.points.filter fun p => offset + count ≤ p.offset) ∧
      (restored.points = a.points ↔
        (∀ p ∈ a.points, p.offset ≠ offset + count) ∧ b.EndFree) ∧
      a.points.Sublist restored.points ∧
      restored.points.Perm
        (a.points ++ (b.endsAt (offset + count) ++ a.pointsAt (offset + count))) := by
  have hbConsistent := Insertion.toBuffer_consistent hb hinsertion
  lift offset to ℕ using hoffset
  lift count to ℕ using hcount
  rw [← Int.natCast_add] at hstop ⊢
  have hstop' : offset + count ≤ a.text.length := Int.ofNat_le.mp hstop
  have hle : offset ≤ offset + count := Nat.le_add_right offset count
  have hrestored := replaced_part ha hbConsistent hle hstop'
  have hslice : a.slice offset (offset + count : ℕ) = .ok (a.part offset (offset + count)) :=
    slice_eq_ok.mpr ⟨⟨by omega, by omega, hstop⟩, by rw [Int.toNat_natCast, Int.toNat_natCast]⟩
  have hinside : offset + b.text.length ≤ (a.replaced offset (offset + count) b).text.length := by
    rw [replaced_length (by omega)]
    omega
  have hback : (a.replaced offset (offset + count) b).splice offset b.text.length
      (.buffer (a.part offset (offset + count))) = _ := splice_natCast rfl hinside
  rw [hrestored] at hback
  refine ⟨_, _, hslice, bind_eq_ok.mpr ⟨_, splice_natCast hinsertion hstop', hback⟩, rfl, rfl, ?_,
    Point.sublist_between ha.ordered _ _, Point.perm_between ha.ordered _ _⟩
  rw [Point.between_eq_iff ha.ordered, endsAt_eq_nil_iff, and_comm]
  exact and_congr_left fun _ => pointsAt_eq_nil_iff

theorem splice_slice_bordered :
    bordered.Consistent ∧ enclosed.Consistent ∧
      ∃ part restored : Buffer, bordered.slice 1 2 = .ok part ∧
        (bordered.splice 1 1 (.buffer enclosed) >>= (·.splice 1 1 (.buffer part))) = .ok restored ∧
        restored.text = bordered.text ∧
        restored.points.map (·.name) = ["0", "1", "2", "z", "2", "3"] ∧
        restored.points ≠ bordered.points := by
  have hbordered : bordered.Consistent := ⟨by decide, by decide⟩
  have henclosed : enclosed.Consistent := ⟨by decide, by decide⟩
  have hinsertion : Insertion.toBuffer (.buffer enclosed) = .ok enclosed := rfl
  have hone : (0 : ℤ) ≤ 1 := by decide
  obtain ⟨part, restored, hslice, hback, htext, hpoints, hsame, _, _⟩ :=
    splice_slice hbordered hinsertion henclosed hone hone (by decide)
  refine ⟨hbordered, henclosed, part, restored, hslice, hback, htext, ?_, ?_⟩
  · rw [hpoints]
    decide
  · intro h
    exact absurd (hsame.mp h).2 (by decide)

end Buffer

end TracedText
