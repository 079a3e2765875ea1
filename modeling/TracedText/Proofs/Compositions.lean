import Mathlib
import TracedText.Proofs.Edits

/-! # Edits one after another

A consistent buffer that is put in the place of a part of another stands between what is in front of
the part and what is behind it: three buffers joined (`replaced_eq_join`).  Joining is associative,
and a cut through a joined buffer cuts one of its parts (`front_join_of_le`, `front_join_add`), so
two edits are compared by cutting and joining.  Edits of disjoint places commute
(`splice_disjoint_comm`). -/

namespace TracedText

namespace Point

theorem shift_comp_shift (first second : ℤ) :
    shift second ∘ shift first = shift (first + second) :=
  funext (shift_shift first second)

@[simp] theorem map_shift_zero (points : List Point) : points.map (shift 0) = points :=
  List.map_id'' shift_zero points

end Point

namespace Buffer

/-! ### Cutting and joining -/

/-- The characters in front of an offset, with the points in front of it. -/
def front (b : Buffer) (stop : ℕ) : Buffer :=
  ⟨b.text.take stop, b.points.filter fun p => p.offset < (stop : ℤ)⟩

/-- The characters from an offset on, with the points at it and behind. -/
def rear (b : Buffer) (start : ℕ) : Buffer :=
  ⟨b.text.drop start,
    (b.points.filter fun p => (start : ℤ) ≤ p.offset).map (Point.shift (-start))⟩

/-- One buffer behind another. -/
def join (a c : Buffer) : Buffer :=
  ⟨a.text ++ c.text, a.points ++ c.points.map (Point.shift a.text.length)⟩

/-- No point of the buffer is at its end. -/
def EndFree (b : Buffer) : Prop := ∀ p ∈ b.points, p.offset ≠ b.text.length

instance (b : Buffer) : Decidable b.EndFree :=
  inferInstanceAs (Decidable (∀ p ∈ b.points, p.offset ≠ b.text.length))

variable {a b c : Buffer}

theorem join_assoc (a b c : Buffer) : (a.join b).join c = a.join (b.join c) := by
  simp only [join, List.append_assoc, List.map_append, List.map_map, List.length_append,
    Point.shift_comp_shift, Int.natCast_add, Int.add_comm (b.text.length : ℤ)]

@[simp] theorem empty_join (c : Buffer) : (ofText []).join c = c := by
  simp [join, ofText]

@[simp] theorem join_empty (a : Buffer) : a.join (ofText []) = a := by
  simp [join, ofText]

theorem front_length {stop : ℕ} (h : stop ≤ b.text.length) : (b.front stop).text.length = stop := by
  rw [front, List.length_take, min_eq_left h]

theorem front_consistent (hb : b.Consistent) {stop : ℕ} (h : stop ≤ b.text.length) :
    (b.front stop).Consistent := by
  refine ⟨hb.ordered.filter _, fun p hp => ?_⟩
  obtain ⟨hmem, hlt⟩ := List.mem_filter.mp hp
  have := (hb.inside p hmem).1
  have := of_decide_eq_true hlt
  simp only [front, List.length_take]
  omega

theorem rear_consistent (hb : b.Consistent) {start : ℕ} (h : start ≤ b.text.length) :
    (b.rear start).Consistent := by
  refine ⟨Point.pairwise_map_shift (hb.ordered.filter _) _, fun p hp => ?_⟩
  obtain ⟨q, hq, rfl⟩ := List.mem_map.mp hp
  obtain ⟨hmem, hle⟩ := List.mem_filter.mp hq
  have := (hb.inside q hmem).2
  have := of_decide_eq_true hle
  simp only [rear, Point.shift, List.length_drop]
  omega

theorem join_consistent (ha : a.Consistent) (hc : c.Consistent) : (a.join c).Consistent := by
  have hbehind := batch_inside hc a.text.length
  constructor
  · refine List.pairwise_append.mpr ⟨ha.ordered, Point.pairwise_map_shift hc.ordered _, ?_⟩
    exact fun p hp q hq => le_trans (ha.inside p hp).2 (hbehind q hq).1
  · intro p hp
    rw [join, List.length_append]
    rcases List.mem_append.mp hp with hp | hp
    · have := ha.inside p hp
      omega
    · have := hbehind p hp
      omega

theorem front_endFree {stop : ℕ} (h : stop ≤ b.text.length) : (b.front stop).EndFree := by
  intro p hp
  have := of_decide_eq_true (List.mem_filter.mp hp).2
  simp only [front, List.length_take]
  omega

theorem join_endFree (ha : a.Consistent) (hafree : a.EndFree) (hc : c.EndFree) :
    (a.join c).EndFree := by
  intro p hp
  rw [join, List.length_append]
  rcases List.mem_append.mp hp with hp | hp
  · have := (ha.inside p hp).2
    have := hafree p hp
    omega
  · obtain ⟨q, hq, rfl⟩ := List.mem_map.mp hp
    have := hc q hq
    simp only [Point.shift]
    omega

theorem rear_endFree (hb : b.EndFree) {start : ℕ} (h : start ≤ b.text.length) :
    (b.rear start).EndFree := by
  intro p hp
  obtain ⟨q, hq, rfl⟩ := List.mem_map.mp hp
  have := hb q (List.mem_filter.mp hq).1
  simp only [rear, Point.shift, List.length_drop]
  omega

theorem front_join_rear (hb : b.Consistent) {place : ℕ} (h : place ≤ b.text.length) :
    (b.front place).join (b.rear place) = b := by
  rw [join, front_length h]
  simp only [front, rear, List.take_append_drop, List.map_map, Point.shift_comp_shift,
    neg_add_cancel, Point.map_shift_zero, Point.filter_lt_append_filter_le hb.ordered]

/-- Every place parts a buffer into two, the first of which has no point at its end. -/
theorem exists_eq_join (hb : b.Consistent) {place : ℕ} (h : place ≤ b.text.length) :
    ∃ a c : Buffer, a.Consistent ∧ c.Consistent ∧ a.EndFree ∧ a.text.length = place ∧
      b = a.join c := by
  refine ⟨b.front place, b.rear place, front_consistent hb h, rear_consistent hb h,
    front_endFree h, front_length h, (front_join_rear hb h).symm⟩

/-! ### Cutting what was joined -/

section
variable {place count : ℕ}

theorem front_join_of_le (hc : c.Consistent) (h : place ≤ a.text.length) :
    (a.join c).front place = a.front place := by
  have hbehind : (c.points.map (Point.shift a.text.length)).filter
      (fun p => p.offset < (place : ℤ)) = [] := by
    rw [List.filter_eq_nil_iff]
    intro p hp
    have := (batch_inside hc a.text.length p hp).1
    simp only [decide_eq_true_eq]
    omega
  simp only [front, join, List.take_append_of_le_length h, List.filter_append, hbehind,
    List.append_nil]

theorem rear_join_of_le (hc : c.Consistent) (h : place ≤ a.text.length) :
    (a.join c).rear place = (a.rear place).join c := by
  have hbehind : (c.points.map (Point.shift a.text.length)).filter
      (fun p => (place : ℤ) ≤ p.offset) = c.points.map (Point.shift a.text.length) := by
    rw [List.filter_eq_self]
    intro p hp
    have := (batch_inside hc a.text.length p hp).1
    simp only [decide_eq_true_eq]
    omega
  have hsum : (a.text.length : ℤ) + -(place : ℤ) = ((a.text.length - place : ℕ) : ℤ) := by omega
  simp only [rear, join, List.drop_append_of_le_length h, List.filter_append, hbehind,
    List.map_append, List.map_map, List.length_drop, Point.shift_comp_shift, hsum]

/-- The points of a buffer are in front of an offset in what stands behind it, unless one is at its
end and the offset is there. -/
theorem lt_of_endFree (ha : a.Consistent) (h : 0 < count ∨ a.EndFree) :
    ∀ p ∈ a.points, p.offset < ((a.text.length + count : ℕ) : ℤ) := by
  intro p hp
  have := (ha.inside p hp).2
  rcases h with hcount | hfree
  · omega
  · have := hfree p hp
    omega

theorem front_join_add (ha : a.Consistent) (h : 0 < count ∨ a.EndFree) :
    (a.join c).front (a.text.length + count) = a.join (c.front count) := by
  have hall : a.points.filter (fun p => p.offset < ((a.text.length + count : ℕ) : ℤ)) =
      a.points :=
    List.filter_eq_self.mpr fun p hp => decide_eq_true (lt_of_endFree ha h p hp)
  simp only [front, join, List.take_length_add_append, List.filter_append, hall, List.filter_map,
    mk.injEq, true_and, List.append_cancel_left_eq]
  congr 1
  refine List.filter_congr fun p _ => ?_
  rw [Function.comp_apply, decide_eq_decide]
  simp only [Point.shift]
  omega

theorem rear_join_add (ha : a.Consistent) (h : 0 < count ∨ a.EndFree) :
    (a.join c).rear (a.text.length + count) = c.rear count := by
  have hnone : a.points.filter (fun p => ((a.text.length + count : ℕ) : ℤ) ≤ p.offset) = [] := by
    rw [List.filter_eq_nil_iff]
    intro p hp
    have := lt_of_endFree ha h p hp
    simp only [decide_eq_true_eq]
    omega
  have hsum : (a.text.length : ℤ) + -((a.text.length + count : ℕ) : ℤ) = -(count : ℤ) := by omega
  simp only [rear, join, List.drop_length_add_append, List.filter_append, hnone, List.nil_append,
    List.filter_map, List.map_map, Point.shift_comp_shift, hsum, mk.injEq, true_and]
  congr 1
  refine List.filter_congr fun p _ => ?_
  rw [Function.comp_apply, decide_eq_decide]
  simp only [Point.shift]
  omega

end

/-! ### Edits -/

/-- **What is put in stands between what is in front of the part and what is behind it.** -/
theorem replaced_eq_join {inserted : Buffer} (hb : b.Consistent) (hi : inserted.Consistent)
    {start stop : ℕ} (h : start ≤ stop) (hstop : stop ≤ b.text.length) :
    b.replaced start stop inserted = (b.front start).join (inserted.join (b.rear stop)) := by
  have htext : (b.replaced start stop inserted).text =
      ((b.front start).join (inserted.join (b.rear stop))).text := by
    simp only [replaced, front, rear, join, List.append_assoc]
  have hpoints : (b.replaced start stop inserted).points =
      ((b.front start).join (inserted.join (b.rear stop))).points := by
    have hsum : -(stop : ℤ) + inserted.text.length + start =
        inserted.text.length - (stop - start : ℕ) := by omega
    rw [replaced_points hb hi h, join, front_length (h.trans hstop)]
    simp only [front, rear, join, List.map_append, List.map_map, List.append_assoc,
      Point.shift_comp_shift, hsum]
  exact congrArg₂ Buffer.mk htext hpoints

theorem replaced_endFree {inserted : Buffer} (hb : b.Consistent) (hbfree : b.EndFree)
    (hi : inserted.Consistent) (hifree : inserted.EndFree) {start stop : ℕ} (h : start ≤ stop)
    (hstop : stop ≤ b.text.length) : (b.replaced start stop inserted).EndFree := by
  rw [replaced_eq_join hb hi h hstop]
  apply join_endFree (front_consistent hb (by omega)) (front_endFree (by omega))
  exact join_endFree hi hifree (rear_endFree hbfree hstop)

section
variable {start stop : ℕ} {inserted : Buffer}

theorem replaced_join_left (ha : a.Consistent) (hc : c.Consistent) (hi : inserted.Consistent)
    (h : start ≤ stop) (hstop : stop ≤ a.text.length) :
    (a.join c).replaced start stop inserted = (a.replaced start stop inserted).join c := by
  have hlength : stop ≤ (a.join c).text.length := by
    rw [join, List.length_append]
    omega
  rw [replaced_eq_join (join_consistent ha hc) hi h hlength, front_join_of_le hc (by omega),
    rear_join_of_le hc hstop, replaced_eq_join ha hi h hstop, join_assoc, join_assoc]

/-- An edit of the second of two joined buffers.  What is put in where this one starts would go in
front of a point at the end of the first. -/
theorem replaced_join_right (ha : a.Consistent) (hc : c.Consistent) (hi : inserted.Consistent)
    (h : start ≤ stop) (hstop : stop ≤ c.text.length) (hfree : 0 < start ∨ a.EndFree) :
    (a.join c).replaced (a.text.length + start) (a.text.length + stop) inserted =
      a.join (c.replaced start stop inserted) := by
  have hlength : a.text.length + stop ≤ (a.join c).text.length := by
    rw [join, List.length_append]
    omega
  rw [replaced_eq_join (join_consistent ha hc) hi (by omega) hlength, front_join_add ha hfree,
    rear_join_add ha (hfree.imp_left (by omega)), replaced_eq_join hc hi h hstop, join_assoc]

end

theorem splice_of_le {insertion : Insertion} {inserted : Buffer}
    (hi : insertion.toBuffer = .ok inserted) {start stop : ℕ} (h : start ≤ stop)
    (hstop : stop ≤ b.text.length) :
    b.splice start (stop - start) insertion = .ok (b.replaced start stop inserted) := by
  have hend : ((start : ℤ) + (stop - start)).toNat = stop := by omega
  rw [splice_of_span hi (by omega) (by omega) (by omega), Int.toNat_natCast, hend]

theorem splice_natCast {insertion : Insertion} {inserted : Buffer}
    (hi : insertion.toBuffer = .ok inserted) {offset count : ℕ}
    (h : offset + count ≤ b.text.length) :
    b.splice offset count insertion = .ok (b.replaced offset (offset + count) inserted) := by
  rw [splice_of_span hi (by omega) (by omega) (by omega), Int.toNat_natCast, ← Int.natCast_add,
    Int.toNat_natCast]

theorem replaced_disjoint {first second : Buffer} (hb : b.Consistent) (hfirst : first.Consistent)
    (hsecond : second.Consistent) {start stop start' stop' : ℕ} (h : start ≤ stop)
    (hapart : stop ≤ start') (h' : start' ≤ stop') (hstop' : stop' ≤ b.text.length)
    (hends : stop < start' ∨ first.EndFree) :
    (b.replaced start' stop' second).replaced start stop first =
      (b.replaced start stop first).replaced (start + first.text.length + (start' - stop))
        (start + first.text.length + (stop' - stop)) second := by
  obtain ⟨before, rfl⟩ := Nat.exists_eq_add_of_le hapart
  obtain ⟨after, rfl⟩ := Nat.exists_eq_add_of_le (hapart.trans h')
  -- Behind the part in front the buffer is cut in two, and each edit is one of one of the two.
  obtain ⟨a, c, ha, hc, hafree, rfl, rfl⟩ := exists_eq_join hb (show stop ≤ b.text.length by omega)
  rw [join, List.length_append] at hstop'
  have hplace : (a.replaced start a.text.length first).text.length = start + first.text.length := by
    rw [replaced_length h, Nat.sub_self, Nat.add_zero]
  have hfree : 0 < before ∨ (a.replaced start a.text.length first).EndFree :=
    hends.imp (by omega) fun hfirstfree =>
      replaced_endFree ha hafree hfirst hfirstfree h (le_refl _)
  have hsecondPlaced : (c.replaced before after second).Consistent :=
    replaced_consistent hc hsecond (by omega) (by omega)
  have hfirstPlaced : (a.replaced start a.text.length first).Consistent :=
    replaced_consistent ha hfirst h (le_refl _)
  rw [Nat.add_sub_cancel_left, Nat.add_sub_cancel_left, ← hplace,
    replaced_join_right ha hc hsecond (by omega) (by omega) (Or.inr hafree),
    replaced_join_left ha hsecondPlaced hfirst h (le_refl _),
    replaced_join_left ha hc hfirst h (le_refl _),
    replaced_join_right hfirstPlaced hc hsecond (by omega) (by omega) hfree]

/-- **Edits of disjoint places commute.**  The part behind moves with the text when the one in front
is replaced first.  When the two parts touch, what is put in for the one in front must not have a
point at its end, since the other insertion would go in front of this point if it came last. -/
theorem splice_disjoint_comm (hb : b.Consistent) {inFront behind : Insertion}
    {first second : Buffer} (hfirst : inFront.toBuffer = .ok first)
    (hsecond : behind.toBuffer = .ok second) (hinFront : inFront.Consistent)
    (hbehind : behind.Consistent) {start stop start' stop' : ℤ} (hstart : 0 ≤ start)
    (h : start ≤ stop) (hapart : stop ≤ start') (h' : start' ≤ stop')
    (hstop' : stop' ≤ b.text.length) (hends : stop < start' ∨ first.EndFree) :
    ∃ c, (b.splice start' (stop' - start') behind >>=
        (·.splice start (stop - start) inFront)) = .ok c ∧
      (b.splice start (stop - start) inFront >>=
        (·.splice (start' + first.text.length - (stop - start)) (stop' - start') behind)) =
          .ok c := by
  have hfirstConsistent := Insertion.toBuffer_consistent hinFront hfirst
  have hsecondConsistent := Insertion.toBuffer_consistent hbehind hsecond
  lift start to ℕ using hstart
  lift stop to ℕ using by omega
  lift start' to ℕ using by omega
  lift stop' to ℕ using by omega
  rw [Int.ofNat_le] at h hapart h' hstop'
  rw [Int.ofNat_lt] at hends
  have hsame := replaced_disjoint hb hfirstConsistent hsecondConsistent h hapart h' hstop' hends
  have hplace : (start' : ℤ) + first.text.length - (stop - start) =
      ((start + first.text.length + (start' - stop) : ℕ) : ℤ) := by omega
  have hcount : (stop' : ℤ) - start' = ((start + first.text.length + (stop' - stop) : ℕ) : ℤ) -
      ((start + first.text.length + (start' - stop) : ℕ) : ℤ) := by omega
  refine ⟨(b.replaced start' stop' second).replaced start stop first, ?_, ?_⟩
  · refine bind_eq_ok.mpr ⟨_, splice_of_le hsecond h' hstop', splice_of_le hfirst h ?_⟩
    rw [replaced_length (by omega)]
    omega
  · refine bind_eq_ok.mpr ⟨_, splice_of_le hfirst h (by omega), ?_⟩
    rw [hplace, hcount, hsame]
    refine splice_of_le hsecond (by omega) ?_
    rw [replaced_length (by omega)]
    omega

/-- Three letters with points at every offset. -/
def bordered : Buffer :=
  ⟨['a', 'b', 'c'], [⟨0, some "s", some 1, some 0, "0"⟩, ⟨1, some "s", some 1, some 0, "1"⟩,
    ⟨2, some "s", some 1, some 0, "2"⟩, ⟨3, some "s", some 1, some 0, "3"⟩]⟩

/-- A letter with a point on it. -/
def pointed : Buffer := ⟨['x'], [⟨0, some "t", some 1, some 0, "x"⟩]⟩

/-- A letter with a point on it and one at its end. -/
def enclosed : Buffer :=
  ⟨['y'], [⟨0, some "u", some 1, some 0, "y"⟩, ⟨1, some "u", some 1, some 1, "z"⟩]⟩

theorem splice_disjoint_comm_bordered :
    bordered.Consistent ∧ pointed.Consistent ∧ enclosed.Consistent ∧ pointed.EndFree ∧
      ∃ c, c.points.map (·.name) = ["x", "y", "z", "2", "3"] ∧
        (bordered.splice 1 1 (.buffer enclosed) >>= (·.splice 0 1 (.buffer pointed))) = .ok c ∧
        (bordered.splice 0 1 (.buffer pointed) >>= (·.splice 1 1 (.buffer enclosed))) = .ok c := by
  have hbordered : bordered.Consistent := ⟨by decide, by decide⟩
  have hpointed : pointed.Consistent := ⟨by decide, by decide⟩
  have henclosed : enclosed.Consistent := ⟨by decide, by decide⟩
  have hfree : pointed.EndFree := by decide
  have hfirst : Insertion.toBuffer (.buffer pointed) = .ok pointed := rfl
  have hsecond : Insertion.toBuffer (.buffer enclosed) = .ok enclosed := rfl
  have hletter : (0 : ℤ) ≤ 1 := by decide
  have hnext : (1 : ℤ) ≤ 2 := by decide
  obtain ⟨c, hback, hfront⟩ := splice_disjoint_comm hbordered hfirst hsecond hpointed henclosed
    (le_refl 0) hletter (le_refl 1) hnext (by decide) (Or.inr hfree)
  have hrun : ((bordered.splice 1 1 (.buffer enclosed) >>= (·.splice 0 1 (.buffer pointed))).map
      fun c => c.points.map (·.name)) = .ok ["x", "y", "z", "2", "3"] := by cbv
  have hfound : (bordered.splice 1 1 (.buffer enclosed) >>= (·.splice 0 1 (.buffer pointed))) =
      .ok c := hback
  rw [hfound] at hrun
  exact ⟨hbordered, hpointed, henclosed, hfree, c, Except.ok.inj hrun, hback, hfront⟩

/-! ### Edits of what was put in -/

theorem replaced_nested (ha : a.Consistent) (hb : b.Consistent) (hc : c.Consistent)
    {start stop place stop' : ℕ} (h : start ≤ stop) (hstop : stop ≤ a.text.length)
    (h' : place ≤ stop') (hstop' : stop' ≤ b.text.length) :
    (a.replaced start stop b).replaced (start + place) (start + stop') c =
      a.replaced start stop (b.replaced place stop' c) := by
  have hfront := front_consistent ha (h.trans hstop)
  have hrear := rear_consistent ha hstop
  have hjoined : stop' ≤ (b.join (a.rear stop)).text.length := by
    rw [join, List.length_append]
    omega
  have hright := replaced_join_right hfront (join_consistent hb hrear) hc h' hjoined
    (Or.inr (front_endFree (h.trans hstop)))
  rw [front_length (h.trans hstop)] at hright
  rw [replaced_eq_join ha hb h hstop, hright, replaced_join_left hb hrear hc h' hstop',
    replaced_eq_join ha (replaced_consistent hb hc h' hstop') h hstop]

theorem append_eq_replaced {insertion : Insertion} {inserted : Buffer}
    (hi : insertion.toBuffer = .ok inserted) :
    b.append insertion = .ok (b.replaced b.text.length b.text.length inserted) := by
  rw [append, splice_of_span hi (by omega) (by omega) (by omega), add_zero, Int.toNat_natCast]

/-- **Edits nest.**  Putting one buffer into another and then editing the part that it takes up
gives what it gives to edit the one and then put it into the other.  So appending is associative,
and the empty buffer does nothing on either side. -/
theorem splice_nested (ha : a.Consistent) (hb : b.Consistent) {insertion : Insertion}
    (hinsertion : insertion.toBuffer = .ok c) (hc : insertion.Consistent) :
    (∀ offset count place length : ℤ, 0 ≤ offset → 0 ≤ count → offset + count ≤ a.text.length →
      0 ≤ place → 0 ≤ length → place + length ≤ b.text.length →
      ∃ d, (a.splice offset count (.buffer b) >>= (·.splice (offset + place) length insertion)) =
          .ok d ∧
        (b.splice place length insertion >>= (a.splice offset count <| .buffer ·)) = .ok d) ∧
      (∃ d, (a.append (.buffer b) >>= (·.append insertion)) = .ok d ∧
        (b.append insertion >>= (a.append <| .buffer ·)) = .ok d) ∧
      a.append (.buffer (ofText [])) = .ok a ∧ (ofText []).append (.buffer a) = .ok a := by
  have hcConsistent := Insertion.toBuffer_consistent hc hinsertion
  have hempty := ofText_consistent []
  refine ⟨?_, ?_, ?_, ?_⟩
  · intro offset count place length hoffset hcount hstop hplace hlength hstop'
    lift offset to ℕ using hoffset
    lift count to ℕ using hcount
    lift place to ℕ using hplace
    lift length to ℕ using hlength
    refine ⟨a.replaced offset (offset + count) (b.replaced place (place + length) c), ?_, ?_⟩
    · refine bind_eq_ok.mpr ⟨_, splice_natCast rfl (by omega), ?_⟩
      rw [← replaced_nested ha hb hcConsistent (by omega) (by omega) (by omega) (by omega),
        ← Nat.add_assoc, ← Int.natCast_add]
      refine splice_natCast hinsertion ?_
      rw [replaced_length (by omega)]
      omega
    · exact bind_eq_ok.mpr
        ⟨_, splice_natCast hinsertion (by omega), splice_natCast rfl (by omega)⟩
  · have hlength : (a.replaced a.text.length a.text.length b).text.length =
        a.text.length + b.text.length := by
      rw [replaced_length (le_refl _), Nat.sub_self, Nat.add_zero]
    refine ⟨a.replaced a.text.length a.text.length (b.replaced b.text.length b.text.length c),
      ?_, ?_⟩
    · refine bind_eq_ok.mpr ⟨_, append_eq_replaced rfl, ?_⟩
      rw [append_eq_replaced hinsertion, hlength,
        replaced_nested ha hb hcConsistent (le_refl _) (le_refl _) (le_refl _) (le_refl _)]
    · exact bind_eq_ok.mpr ⟨_, append_eq_replaced hinsertion, append_eq_replaced rfl⟩
  · rw [append_eq_replaced rfl, replaced_eq_join ha hempty (le_refl _) (le_refl _), empty_join,
      front_join_rear ha (le_refl _)]
  · have hfront : (ofText []).front (ofText []).text.length = ofText [] := rfl
    have hrear : (ofText []).rear (ofText []).text.length = ofText [] := rfl
    rw [append_eq_replaced rfl, replaced_eq_join hempty ha (le_refl _) (le_refl _), hfront, hrear,
      join_empty, empty_join]

theorem splice_nested_bordered :
    bordered.Consistent ∧ enclosed.Consistent ∧ pointed.Consistent ∧
      ∃ c, c.points.map (·.name) = ["0", "y", "x", "z", "2", "3"] ∧
        (bordered.splice 1 1 (.buffer enclosed) >>= (·.splice 2 0 (.buffer pointed))) = .ok c ∧
        (enclosed.splice 1 0 (.buffer pointed) >>= (bordered.splice 1 1 <| .buffer ·)) = .ok c := by
  have hbordered : bordered.Consistent := ⟨by decide, by decide⟩
  have hpointed : pointed.Consistent := ⟨by decide, by decide⟩
  have henclosed : enclosed.Consistent := ⟨by decide, by decide⟩
  have hinner : Insertion.toBuffer (.buffer pointed) = .ok pointed := rfl
  obtain ⟨c, houter, hinside⟩ := (splice_nested hbordered henclosed hinner hpointed).1 1 1 1 0
    (by decide) (by decide) (by decide) (by decide) (by decide) (by decide)
  have hrun : ((bordered.splice 1 1 (.buffer enclosed) >>= (·.splice 2 0 (.buffer pointed))).map
      fun c => c.points.map (·.name)) = .ok ["0", "y", "x", "z", "2", "3"] := by cbv
  have hfound : (bordered.splice 1 1 (.buffer enclosed) >>= (·.splice 2 0 (.buffer pointed))) =
      .ok c := houter
  rw [hfound] at hrun
  exact ⟨hbordered, henclosed, hpointed, c, Except.ok.inj hrun, houter, hinside⟩

end Buffer

end TracedText
