import TracedText.Proofs.Batches
import TracedText.Proofs.Slices

/-! # Batches in slices

A batch whose ranges lie in a part of a buffer can be deleted from the whole buffer or from a slice of
this part, and both come to the same (`step_deleteAll_slice`).  A part of a buffer that was edited
inside the part is the edited part (`part_replaced`).  This is the step: from it follows, by
induction on a plan, that deleting ranges commutes with taking the part that is left (`without_part`).
Ranges that are apart take up as many characters as the buffer loses (`without_length`). -/

namespace TracedText

namespace Buffer
variable {b inserted : Buffer}

/-! ### Edits inside a part -/

section
variable {start first last stop : ℕ}

theorem part_replaced_text (hfirst : start ≤ first) (h : first ≤ last) (hlast : last ≤ stop)
    (hstop : stop ≤ b.text.length) :
    ((b.replaced first last inserted).part start
        (stop - (last - first) + inserted.text.length)).text =
      ((b.part start stop).replaced (first - start) (last - start) inserted).text := by
  have hfront : ((b.text.take stop).drop start).take (first - start) =
      (b.text.take first).drop start := by
    rw [List.drop_take, List.drop_take, List.take_take, min_eq_left (by omega)]
  have hrear : ((b.text.take stop).drop start).drop (last - start) =
      (b.text.drop last).take (stop - last) := by
    rw [List.drop_drop, Nat.add_sub_of_le (hfirst.trans h), List.drop_take]
  have hlength : (b.text.take first).length = first := by
    rw [List.length_take, min_eq_left (by omega)]
  have hcount : stop - (last - first) + inserted.text.length =
      ((b.text.take first).length + inserted.text.length) + (stop - last) := by omega
  show ((b.text.take first ++ inserted.text ++ b.text.drop last).take _).drop start =
    ((b.text.take stop).drop start).take (first - start) ++ inserted.text ++
      ((b.text.take stop).drop start).drop (last - start)
  rw [hfront, hrear, hcount, ← List.length_append, List.take_length_add_append, List.append_assoc,
    List.drop_append_of_le_length (by omega), List.append_assoc]

/-- **A part of an edited buffer is the edited part**, when the edit lies in the part. -/
theorem part_replaced (hb : b.Consistent) (hi : inserted.Consistent) (hfirst : start ≤ first)
    (h : first ≤ last) (hlast : last ≤ stop) (hstop : stop ≤ b.text.length) :
    (b.replaced first last inserted).part start (stop - (last - first) + inserted.text.length) =
      (b.part start stop).replaced (first - start) (last - start) inserted := by
  have hpart := part_consistent hb (hfirst.trans (h.trans hlast)) hstop
  have hreplaced := replaced_consistent hb hi h (hlast.trans hstop)
  have hplace : (first : ℤ) + -start = (first - start : ℕ) := by omega
  have hmoved : (inserted.text.length - (last - first : ℕ) : ℤ) + -start =
      -start + (inserted.text.length - (last - start - (first - start) : ℕ)) := by omega
  have hbatch : ∀ q ∈ inserted.points, (start : ℤ) ≤ (q.shift first).offset ∧
      (q.shift first).offset ≤ (stop - (last - first) + inserted.text.length : ℕ) := by
    intro q hq
    have := hi.inside q hq
    simp only [Point.shift]
    omega
  refine congrArg₂ Buffer.mk (part_replaced_text hfirst h hlast hstop) ?_
  show ((b.replaced first last inserted).part start _).points =
    ((b.part start stop).replaced (first - start) (last - start) inserted).points
  rw [part_points hreplaced (by omega), replaced_points hb hi h,
    replaced_points hpart hi (by omega), part_points hb (by omega)]
  simp only [List.filter_append, List.map_append, List.filter_map, List.map_map,
    Point.shift_comp_shift, List.filter_filter, hplace, hmoved]
  -- In front of the edit, in what is put in and behind the edit the same points are kept.
  refine congrArg₂ _ (congrArg₂ _ (congrArg _ ?_) (congrArg _ ?_)) (congrArg _ ?_)
  · refine List.filter_congr fun p _ => ?_
    rw [Bool.eq_iff_iff, Bool.and_eq_true, Bool.and_eq_true]
    simp only [Function.comp_apply, decide_eq_true_eq]
    simp only [Point.shift]
    omega
  · exact List.filter_eq_self.mpr fun q hq => decide_eq_true (hbatch q hq)
  · refine List.filter_congr fun p _ => ?_
    rw [Bool.eq_iff_iff, Bool.and_eq_true, Bool.and_eq_true]
    simp only [Function.comp_apply, decide_eq_true_eq]
    simp only [Point.shift]
    omega

end

/-! ### Batches inside a part -/

section
variable {base : ℤ} {ranges batch : List Deletion} {start stop : ℕ}

theorem replaced_length_of_covers {d : Deletion} (hd : b.covers base d = true) :
    (b.replaced (d.start - base).toNat (d.stop - base).toNat (ofText [])).text.length + d.length =
      b.text.length := by
  have hin := covers_iff.mp hd
  have hle := d.start_le_stop
  have hnil : (ofText []).text.length = 0 := rfl
  rw [replaced_length (by omega), Deletion.length]
  omega

/-- **Ranges that are apart take up what a buffer loses.** -/
theorem without_length (hb : b.Consistent) (hcovers : ∀ d ∈ ranges, b.covers base d = true)
    (hapart : ranges.Pairwise fun d e => e.stop ≤ d.start) :
    (b.without base ranges).text.length + (ranges.map Deletion.length).sum = b.text.length := by
  induction ranges generalizing b with
  | nil => rw [without_nil, List.map_nil, List.sum_nil, Nat.add_zero]
  | cons d rest ih =>
      obtain ⟨hfront, hrest⟩ := List.pairwise_cons.mp hapart
      obtain ⟨hd, hcovers⟩ := List.forall_mem_cons.mp hcovers
      have hnext := delete_consistent hb (delete_of_covers hd)
      have hlost := replaced_length_of_covers hd
      have hlength := ih hnext (fun e he => covers_replaced hd (hcovers e he) (hfront e he)) hrest
      rw [without_replaced hb hd hfront] at hlength
      rw [List.map_cons, List.sum_cons]
      omega

theorem part_replaced_range (hb : b.Consistent) {d : Deletion}
    (hd : start ≤ d.start ∧ d.stop ≤ stop) (hstop : stop ≤ b.text.length) :
    (b.part start stop).replaced (d.start - start : ℤ).toNat (d.stop - start : ℤ).toNat
        (ofText []) =
      (b.replaced (d.start - 0 : ℤ).toNat (d.stop - 0 : ℤ).toNat (ofText [])).part start
        (stop - d.length) := by
  have hempty := ofText_consistent []
  have hstart : (d.start - start : ℤ).toNat = d.start - start := by omega
  have hend : (d.stop - start : ℤ).toNat = d.stop - start := by omega
  rw [hstart, hend, ← part_replaced hb hempty hd.1 d.start_le_stop hd.2 hstop, sub_zero, sub_zero]
  rfl

/-- **Deleting in a part leaves a part of what is left.**  The induction is on the ranges from the
back of the part to its front; each range that is deleted brings the end of the part nearer. -/
theorem without_part (hb : b.Consistent) (h : start ≤ stop) (hstop : stop ≤ b.text.length)
    (hin : ∀ d ∈ ranges, start ≤ d.start ∧ d.stop ≤ stop)
    (hapart : ranges.Pairwise fun d e => e.stop ≤ d.start) :
    (b.part start stop).without start ranges =
      (b.without 0 ranges).part start (stop - (ranges.map Deletion.length).sum) := by
  induction ranges generalizing b stop with
  | nil => rw [without_nil, without_nil, List.map_nil, List.sum_nil, Nat.sub_zero]
  | cons d rest ih =>
      obtain ⟨hfront, hrest⟩ := List.pairwise_cons.mp hapart
      obtain ⟨hd, hin⟩ := List.forall_mem_cons.mp hin
      have hle := d.start_le_stop
      have hlength := part_length (a := b) start hstop
      have hwhole : b.covers 0 d = true := covers_iff.mpr ⟨by omega, by omega⟩
      have hinside : (b.part start stop).covers start d = true :=
        covers_iff.mpr ⟨by omega, by omega⟩
      have hlost := replaced_length_of_covers hwhole
      have hcount : d.length = d.stop - d.start := rfl
      have hnext := delete_consistent hb (delete_of_covers hwhole)
      have hrestIn : ∀ e ∈ rest, start ≤ e.start ∧ e.stop ≤ stop - d.length := by
        intro e he
        have := (hin e he).1
        have := hfront e he
        omega
      rw [← without_replaced (part_consistent hb h hstop) hinside hfront,
        ← without_replaced hb hwhole hfront, part_replaced_range hb hd hstop,
        ih hnext (by omega) (by omega) hrestIn hrest, List.map_cons, List.sum_cons, Nat.sub_sub]

/-- A batch that lies in a part is deleted from the part and from the whole, and what is left of the
part is a slice of what is left of the whole. -/
theorem deleteAll_part (hb : b.Consistent) (h : start ≤ stop) (hstop : stop ≤ b.text.length)
    (hin : ∀ d ∈ batch, start ≤ d.start ∧ d.stop ≤ stop) (hapart : Deletion.Apart batch) :
    ∃ whole left, b.deleteAll 0 batch = .ok whole ∧
      (b.part start stop).deleteAll start batch = .ok left ∧
      whole.slice start (stop - (batch.map Deletion.length).sum) = .ok left := by
  have hpart := part_consistent hb h hstop
  have hlength := part_length (a := b) start hstop
  have hwhole : ∀ d ∈ batch, b.Fits 0 d :=
    fun d hd => ⟨by omega, by have := hin d hd; omega⟩
  have hinside : ∀ d ∈ batch, (b.part start stop).Fits start d :=
    fun d hd => ⟨by have := hin d hd; omega, by have := hin d hd; omega⟩
  have hperm := Deletion.ordered_perm batch
  have hordered := Deletion.apart_iff_ordered.mp hapart
  have hsum : ((Deletion.ordered batch).map Deletion.length).sum =
      (batch.map Deletion.length).sum := (hperm.map _).sum_eq
  have hleft := without_part hb h hstop (fun d hd => hin d (hperm.mem_iff.mp hd)) hordered
  have hlost := without_length hb
    (fun d hd => covers_iff.mpr (hwhole d (hperm.mem_iff.mp hd))) hordered
  have hlostInside := without_length hpart
    (fun d hd => covers_iff.mpr (hinside d (hperm.mem_iff.mp hd))) hordered
  rw [without_congr hperm, hsum] at hlost hlostInside
  rw [without_congr hperm, without_congr hperm, hsum] at hleft
  refine ⟨_, _, deleteAll_of_fits hb hapart hwhole, deleteAll_of_fits hpart hapart hinside, ?_⟩
  refine slice_eq_ok.mpr ⟨by omega, hleft.trans ?_⟩
  rw [Int.toNat_natCast, Int.toNat_sub]

end

end Buffer

namespace Session
variable {s : Session} {name : String} {b : Buffer}

theorem step_slice_eq (hs : s.buffers name = some b) {part : Buffer} {start stop : ℤ}
    (hpart : b.slice start stop = .ok part) (dialect : Json.Dialect) (target : String) :
    s.step ⟨name, dialect, .slice start stop target⟩ =
      (.of (.ok (.buffer part)), s.setBuffer target part) := by
  show s.stepSlice name target start stop = _
  unfold stepSlice buffer
  simp only [hs, hpart]

/-- **Slicing commutes with batches.**  A batch that lies in a part of a buffer is deleted from a slice
of this part, taken to start where the part does, just as from the whole buffer: both fail with the
same overlap, or both succeed with the same number of ranges, and then what is left of the slice is
the slice of what is left of the buffer, which ends earlier by the length of the ranges. -/
theorem step_deleteAll_slice (hs : s.buffers name = some b) (hb : b.Consistent)
    (dialect : Json.Dialect) {start stop : ℤ} (hstart : 0 ≤ start) (h : start ≤ stop)
    (hstop : stop ≤ b.text.length) (target : String) {batch : List Deletion}
    (hbatch : ∀ d ∈ batch, start ≤ d.start ∧ d.stop ≤ stop) :
    ∃ part, s.step ⟨name, dialect, .slice start stop target⟩ =
        (.of (.ok (.buffer part)), s.setBuffer target part) ∧
      let sliced := s.setBuffer target part
      let inPart := sliced.step ⟨target, dialect, .deleteAll (batch.map Deletion.range) start⟩
      let inWhole := s.step ⟨name, dialect, .deleteAll (batch.map Deletion.range) 0⟩
      (¬Deletion.Apart batch → ∃ found : Overlap,
        inWhole = (.of (.error (.overlap found)), s) ∧
        inPart = (.of (.error (.overlap found)), sliced) ∧
        (b.text.length < Nat.pow 10 Bounds.digits →
          ∃ words, (Failure.overlap found).told = (.overlap found, some words))) ∧
      (Deletion.Apart batch → ∃ whole left,
        inWhole = (.of (.ok (.count batch.length)), s.setBuffer name whole) ∧
        inPart = (.of (.ok (.count batch.length)), sliced.setBuffer target left) ∧
        whole.slice start (stop - (batch.map Deletion.length).sum) = .ok left) := by
  lift start to ℕ using hstart
  lift stop to ℕ using by omega
  simp only [Nat.cast_le] at h hstop hbatch
  have hslice : b.slice start stop = .ok (b.part start stop) := by
    refine Buffer.slice_eq_ok.mpr ⟨by omega, ?_⟩
    rw [Int.toNat_natCast, Int.toNat_natCast]
  refine ⟨b.part start stop, step_slice_eq hs hslice dialect target, ?_⟩
  intro sliced inPart inWhole
  have hwhole : inWhole = _ := stepDeleteAll_eq hs batch 0
  have hpart : inPart = _ := stepDeleteAll_eq (setBuffer_same s target _) batch start
  refine ⟨fun hoverlap => ?_, fun hapart => ?_⟩
  · obtain ⟨found, hplan, hneighbours, -⟩ := Deletion.plan_of_not_apart hoverlap
    obtain ⟨hfront, hbehind⟩ := Deletion.mem_of_neighbours hneighbours
    rw [Buffer.deleteAll_of_plan_eq_error hplan] at hwhole hpart
    refine ⟨found, hwhole, hpart, fun hshort => ?_⟩
    have hranges : ∀ d ∈ batch, d.stop < Nat.pow 10 Bounds.digits :=
      fun d hd => lt_of_le_of_lt ((hbatch d hd).2.trans hstop) hshort
    refine Failure.told_of_sayable rfl (Overlap.message_sayable ?_)
    simp only [List.forall_mem_cons]
    exact ⟨hranges _ hfront, hranges _ hbehind, nofun⟩
  · obtain ⟨whole, left, hdeleted, hleft, hpartLeft⟩ :=
      Buffer.deleteAll_part hb h hstop hbatch hapart
    rw [hdeleted] at hwhole
    rw [hleft] at hpart
    exact ⟨whole, left, hwhole, hpart, hpartLeft⟩

/-- The second letter, and an empty range at the end. -/
def borderRanges : List Deletion := [⟨1, 2, Nat.two_pos⟩, ⟨3, 3, Nat.le_refl 3⟩]

/-- The three letters without the second. -/
def outerTwo : Buffer :=
  ⟨['a', 'c'], [⟨0, some "s", some 1, some 0, ""⟩, ⟨2, none, none, none, ""⟩]⟩

/-- The last letter, with the point behind it. -/
def lastOne : Buffer := ⟨['c'], [⟨1, none, none, none, ""⟩]⟩

/-- The ranges are deleted from the last two letters and from all three. -/
theorem step_deleteAll_slice_lettered :
    lettered.buffers "main" = some Buffer.letters ∧ Buffer.letters.Consistent ∧
      Deletion.Apart borderRanges ∧
      ∃ part, lettered.step ⟨"main", .strict, .slice 1 3 "rest"⟩ =
          (.of (.ok (.buffer part)), lettered.setBuffer "rest" part) ∧
        lettered.step ⟨"main", .strict, .deleteAll (borderRanges.map Deletion.range) 0⟩ =
          (.of (.ok (.count 2)), lettered.setBuffer "main" outerTwo) ∧
        (lettered.setBuffer "rest" part).step
            ⟨"rest", .strict, .deleteAll (borderRanges.map Deletion.range) 1⟩ =
          (.of (.ok (.count 2)), (lettered.setBuffer "rest" part).setBuffer "rest" lastOne) ∧
        outerTwo.slice 1 2 = .ok lastOne := by
  have hs : lettered.buffers "main" = some Buffer.letters := setBuffer_same _ _ _
  have hapart : Deletion.Apart borderRanges := by decide
  have hstart : (0 : ℤ) ≤ 1 := by decide
  have hle : (1 : ℤ) ≤ 3 := by decide
  have hbatch : ∀ d ∈ borderRanges, (1 : ℤ) ≤ d.start ∧ (d.stop : ℤ) ≤ 3 := by decide
  obtain ⟨part, hslice, -, hdeleted⟩ := step_deleteAll_slice hs Buffer.letters_consistent .strict
    hstart hle (le_refl 3) "rest" hbatch
  obtain ⟨whole, left, hwhole, hpart, hleft⟩ := hdeleted hapart
  have hrun : (lettered.step ⟨"main", .strict,
      .deleteAll (borderRanges.map Deletion.range) 0⟩).2.buffers "main" = some outerTwo := by cbv
  rw [hwhole, setBuffer_same] at hrun
  obtain rfl := Option.some.inj hrun
  have hcut : outerTwo.slice 1 2 = .ok lastOne := by cbv
  have hlast : outerTwo.slice 1 2 = .ok left := hleft
  obtain rfl : lastOne = left := Except.ok.inj (hcut.symm.trans hlast)
  exact ⟨hs, Buffer.letters_consistent, hapart, part, hslice, hwhole, hpart, hcut⟩

end Session

end TracedText
