import TracedText.Buffer.Deletion
import TracedText.Buffer.Splice
import TracedText.Proofs.Outcomes
import TracedText.Proofs.Sorting

/-! # Edits of consistent buffers

The searches of a buffer find what they look for when its points are in order.  From this follow the
points of a part (`part_points`) and of a buffer with another one put into it (`replaced_points`),
and that every way to make or change a buffer gives a consistent one.  The `_eq_ok` theorems say
when an edit succeeds and what it gives. -/

namespace TracedText

/-! ### Finding points -/

namespace Point
variable {points : List Point}

theorem parted_before (h : points.Pairwise fun p q => p.offset ≤ q.offset) (offset : Int) :
    Parted (fun p => decide (p.offset < offset)) points := by
  apply Parted.of_pairwise h
  intro p q hpq hq
  exact decide_eq_true (lt_of_le_of_lt hpq (of_decide_eq_true hq))

theorem countBefore_eq (h : points.Pairwise fun p q => p.offset ≤ q.offset) (offset : Int) :
    countBefore offset points = (points.filter fun p => p.offset < offset).length :=
  bisect_eq_length_filter (parted_before h offset)

theorem take_countBefore (h : points.Pairwise fun p q => p.offset ≤ q.offset) (offset : Int) :
    points.take (countBefore offset points) = points.filter fun p => p.offset < offset :=
  take_bisect (parted_before h offset)

theorem drop_countBefore (h : points.Pairwise fun p q => p.offset ≤ q.offset) (offset : Int) :
    points.drop (countBefore offset points) = points.filter fun p => offset ≤ p.offset := by
  refine (drop_bisect (parted_before h offset)).trans (List.filter_congr ?_)
  intro p _
  rw [← decide_not, decide_eq_decide]
  exact not_lt

theorem filter_lt_append_filter_le (h : points.Pairwise fun p q => p.offset ≤ q.offset)
    (offset : Int) : (points.filter fun p => p.offset < offset) ++
      (points.filter fun p => offset ≤ p.offset) = points := by
  rw [← take_countBefore h, ← drop_countBefore h, List.take_append_drop]

theorem take_countUpTo (h : points.Pairwise fun p q => p.offset ≤ q.offset) (offset : Int) :
    points.take (countUpTo offset points) = points.filter fun p => p.offset ≤ offset := by
  refine take_bisect (Parted.of_pairwise h ?_)
  intro p q hpq hq
  exact decide_eq_true (le_trans hpq (of_decide_eq_true hq))

theorem pairwise_map_shift (h : points.Pairwise fun p q => p.offset ≤ q.offset) (delta : Int) :
    (points.map (shift delta)).Pairwise fun p q => p.offset ≤ q.offset := by
  rw [List.pairwise_map]
  apply h.imp
  intro p q hpq
  simp only [shift]
  omega

/-- A batch between the points in front of an offset and those behind the batch lands there. -/
theorem merge_append {batch kept moved : List Point} {offset : Int}
    (hkept : kept.Pairwise fun p q => p.offset ≤ q.offset)
    (hmoved : moved.Pairwise fun p q => p.offset ≤ q.offset)
    (hbefore : ∀ p ∈ kept, p.offset < offset) (hbatch : ∀ q ∈ batch, offset ≤ q.offset)
    (hbehind : ∀ p ∈ moved, offset ≤ p.offset ∧ ∀ q ∈ batch, q.offset ≤ p.offset) :
    merge batch (kept ++ moved) = kept ++ batch ++ moved := by
  cases batch with
  | nil => simp [merge]
  | cons first rest =>
      have hord : (kept ++ moved).Pairwise fun p q => p.offset ≤ q.offset := by
        rw [List.pairwise_append]
        refine ⟨hkept, hmoved, ?_⟩
        intro p hp q hq
        exact le_trans (hbefore p hp).le (hbehind q hq).1
      have hfirst := hbatch first List.mem_cons_self
      have hkeep : ∀ p ∈ kept, p.offset < first.offset :=
        fun p hp => lt_of_lt_of_le (hbefore p hp) hfirst
      have hmove : ∀ p ∈ moved, first.offset ≤ p.offset :=
        fun p hp => (hbehind p hp).2 first List.mem_cons_self
      have hfront : (kept ++ moved).filter (fun p => p.offset < first.offset) = kept := by
        rw [List.filter_append, List.filter_eq_self.mpr (by simpa using hkeep),
          List.filter_eq_nil_iff.mpr (by simpa using hmove), List.append_nil]
      have hrear : (kept ++ moved).filter (fun p => first.offset ≤ p.offset) = moved := by
        rw [List.filter_append, List.filter_eq_nil_iff.mpr (by simpa using hkeep),
          List.filter_eq_self.mpr (by simpa using hmove), List.nil_append]
      simp only [merge]
      rw [take_countBefore hord, drop_countBefore hord, hfront, hrear]

end Point

namespace Buffer
variable {b inserted : Buffer}

/-! ### Making buffers -/

theorem ofPoints_consistent {text : Text} {points : List Point}
    (h : ofPoints text points = .ok b) : b.Consistent := by
  unfold ofPoints at h
  split at h
  · cases h
  · rename_i hfind
    cases h
    refine ⟨(Point.sort_sortedBy points).ascending, ?_⟩
    intro p hp
    have hinside := List.find?_eq_none.mp hfind p hp
    simpa [Point.inside] using hinside

theorem ofPoints_eq_ok {text : Text} {points : List Point}
    (h : ∀ p ∈ points, 0 ≤ p.offset ∧ p.offset ≤ text.length) :
    ofPoints text points = .ok ⟨text, Point.sort points⟩ := by
  have hinside : ((Point.sort points).find? fun p => !p.inside text.length) = none := by
    rw [List.find?_eq_none]
    intro p hp
    simpa [Point.inside] using h p (Point.mem_sort.mp hp)
  rw [ofPoints, hinside]

theorem ofPoints_of_consistent (hb : b.Consistent) : ofPoints b.text b.points = .ok b := by
  rw [ofPoints_eq_ok hb.inside, Point.sort_of_ordered hb.ordered]

/-! ### Parts -/

/-- The points of a part are those in it and at its ends. -/
theorem part_points (hb : b.Consistent) {start stop : ℕ} (h : start ≤ stop) :
    (b.part start stop).points =
      (b.points.filter fun p => (start : ℤ) ≤ p.offset ∧ p.offset ≤ (stop : ℤ)).map
        (Point.shift (-start)) := by
  have hord := hb.ordered
  have hupTo := Point.take_countUpTo hord (stop : ℤ)
  have hcount : Point.countBefore (start : ℤ) b.points =
      Point.countBefore (start : ℤ) (b.points.filter fun p => p.offset ≤ (stop : ℤ)) := by
    rw [Point.countBefore_eq hord, Point.countBefore_eq (hord.filter _), List.filter_filter]
    congr 1
    apply List.filter_congr
    intro p _
    rw [← Bool.decide_and, decide_eq_decide]
    omega
  simp only [part, hupTo]
  rw [hcount, Point.drop_countBefore (hord.filter _), List.filter_filter]
  congr 1
  apply List.filter_congr
  intro p _
  rw [← Bool.decide_and]

theorem part_consistent (hb : b.Consistent) {start stop : ℕ} (h : start ≤ stop)
    (hstop : stop ≤ b.text.length) : (b.part start stop).Consistent := by
  constructor
  · rw [part_points hb h]
    exact Point.pairwise_map_shift (hb.ordered.filter _) _
  · intro p hp
    rw [part_points hb h, List.mem_map] at hp
    obtain ⟨q, hq, rfl⟩ := hp
    have hrange : (start : ℤ) ≤ q.offset ∧ q.offset ≤ (stop : ℤ) := by
      simpa using (List.mem_filter.mp hq).2
    simp only [part, Point.shift, List.length_drop, List.length_take]
    omega

theorem slice_eq_ok {start stop : ℤ} {c : Buffer} :
    b.slice start stop = .ok c ↔
      (0 ≤ start ∧ start ≤ stop ∧ stop ≤ b.text.length) ∧ c = b.part start.toNat stop.toNat := by
  unfold slice
  split
  · rename_i hbad
    simp only [Bool.or_eq_true, decide_eq_true_eq] at hbad
    constructor
    · intro h
      cases h
    · intro h
      omega
  · rename_i hgood
    simp only [Bool.or_eq_true, decide_eq_true_eq] at hgood
    constructor
    · intro h
      cases h
      exact ⟨by omega, rfl⟩
    · rintro ⟨_, rfl⟩
      rfl

theorem slice_of_outside {start stop : ℤ}
    (h : ¬(0 ≤ start ∧ start ≤ stop ∧ stop ≤ b.text.length)) :
    b.slice start stop = .error (.slice start stop b.text.length) := by
  have hbad : (decide (start < 0) || decide (stop < start) || decide ((b.text.length : ℤ) < stop)) =
      true := by
    simp only [Bool.or_eq_true, decide_eq_true_eq]
    omega
  exact if_pos hbad

theorem slice_natCast {start stop : ℕ} (h : start ≤ stop) (hstop : stop ≤ b.text.length) :
    b.slice start stop = .ok (b.part start stop) :=
  slice_eq_ok.mpr ⟨by omega, by rw [Int.toNat_natCast, Int.toNat_natCast]⟩

theorem slice_consistent (hb : b.Consistent) {start stop : ℤ} {c : Buffer}
    (h : b.slice start stop = .ok c) : c.Consistent := by
  obtain ⟨hrange, rfl⟩ := slice_eq_ok.mp h
  exact part_consistent hb (by omega) (by omega)

/-! ### Splices -/

theorem batch_inside (hi : inserted.Consistent) (start : ℕ) :
    ∀ q ∈ inserted.points.map (Point.shift start),
      (start : ℤ) ≤ q.offset ∧ q.offset ≤ start + inserted.text.length := by
  intro q hq
  obtain ⟨r, hr, rfl⟩ := List.mem_map.mp hq
  have := hi.inside r hr
  simp only [Point.shift]
  omega

/-- The points at the end of the span or behind stand behind what was put in, and in the new
text. -/
theorem moved_inside (hb : b.Consistent) {start stop : ℕ} (h : start ≤ stop) (length : ℕ) :
    ∀ p ∈ (b.points.filter fun p => (stop : ℤ) ≤ p.offset).map
        (Point.shift (length - (stop - start : ℕ))),
      (start : ℤ) + length ≤ p.offset ∧
        p.offset + stop ≤ start + length + b.text.length := by
  intro p hp
  obtain ⟨r, hr, rfl⟩ := List.mem_map.mp hp
  obtain ⟨hmem, hle⟩ := List.mem_filter.mp hr
  have := (hb.inside r hmem).2
  have := of_decide_eq_true hle
  simp only [Point.shift]
  omega

/-- The points of a buffer with another one put into it: those in front of the span, those of the
other buffer, and those at the end of the span or behind. -/
theorem replaced_points (hb : b.Consistent) (hi : inserted.Consistent) {start stop : ℕ}
    (h : start ≤ stop) :
    (b.replaced start stop inserted).points =
      (b.points.filter fun p => p.offset < (start : ℤ)) ++
        inserted.points.map (Point.shift start) ++
        (b.points.filter fun p => (stop : ℤ) ≤ p.offset).map
          (Point.shift (inserted.text.length - (stop - start : ℕ))) := by
  have hord := hb.ordered
  simp only [replaced, Point.take_countBefore hord, Point.drop_countBefore hord]
  have hbatch := batch_inside hi start
  have hmoved := moved_inside hb h inserted.text.length
  apply Point.merge_append (hord.filter _) (Point.pairwise_map_shift (hord.filter _) _)
  · intro p hp
    simpa using (List.mem_filter.mp hp).2
  · exact fun q hq => (hbatch q hq).1
  · intro p hp
    have := (hmoved p hp).1
    exact ⟨by omega, fun q hq => le_trans (hbatch q hq).2 this⟩

theorem replaced_length {start stop : ℕ} (h : start ≤ b.text.length) :
    (b.replaced start stop inserted).text.length =
      start + inserted.text.length + (b.text.length - stop) := by
  simp only [replaced, List.length_append, List.length_take, List.length_drop]
  omega

theorem replaced_consistent (hb : b.Consistent) (hi : inserted.Consistent) {start stop : ℕ}
    (h : start ≤ stop) (hstop : stop ≤ b.text.length) :
    (b.replaced start stop inserted).Consistent := by
  have hlen : (b.replaced start stop inserted).text.length = _ := replaced_length (h.trans hstop)
  have hkept : ∀ p ∈ b.points.filter fun p => p.offset < (start : ℤ),
      0 ≤ p.offset ∧ p.offset ≤ start := by
    intro p hp
    obtain ⟨hmem, hlt⟩ := List.mem_filter.mp hp
    exact ⟨(hb.inside p hmem).1, (of_decide_eq_true hlt).le⟩
  have hbatch := batch_inside hi start
  have hmoved := moved_inside hb h inserted.text.length
  constructor
  · rw [replaced_points hb hi h, List.pairwise_append, List.pairwise_append]
    refine ⟨⟨hb.ordered.filter _, Point.pairwise_map_shift hi.ordered _, ?_⟩,
      Point.pairwise_map_shift (hb.ordered.filter _) _, ?_⟩
    · intro p hp q hq
      exact le_trans (hkept p hp).2 (hbatch q hq).1
    · intro p hp q hq
      have := (hmoved q hq).1
      rcases List.mem_append.mp hp with hp | hp
      · have := (hkept p hp).2
        omega
      · have := (hbatch p hp).2
        omega
  · intro p hp
    rw [replaced_points hb hi h, List.mem_append, List.mem_append] at hp
    rcases hp with (hp | hp) | hp
    · have := hkept p hp
      omega
    · have := hbatch p hp
      omega
    · have := hmoved p hp
      omega

theorem checkSpan_eq_ok {offset count : ℤ} :
    b.checkSpan offset count = .ok () ↔
      0 ≤ offset ∧ 0 ≤ count ∧ offset + count ≤ b.text.length := by
  unfold checkSpan
  split_ifs with h1 h2 h3
  · exact ⟨nofun, fun h => by omega⟩
  · exact ⟨nofun, fun h => by omega⟩
  · exact ⟨nofun, fun h => by omega⟩
  · exact ⟨fun _ => by omega, fun _ => rfl⟩

theorem replace_eq_ok {offset count : ℤ} {c : Buffer} :
    b.replace offset count inserted = .ok c ↔
      (0 ≤ offset ∧ 0 ≤ count ∧ offset + count ≤ b.text.length) ∧
        c = b.replaced offset.toNat (offset + count).toNat inserted := by
  unfold replace
  rw [bind_eq_ok, ← checkSpan_eq_ok]
  constructor
  · rintro ⟨_, hspan, h⟩
    exact ⟨hspan, (Except.ok.inj h).symm⟩
  · rintro ⟨hspan, rfl⟩
    exact ⟨(), hspan, rfl⟩

theorem replace_consistent (hb : b.Consistent) (hi : inserted.Consistent) {offset count : ℤ}
    {c : Buffer} (h : b.replace offset count inserted = .ok c) : c.Consistent := by
  obtain ⟨hspan, rfl⟩ := replace_eq_ok.mp h
  exact replaced_consistent hb hi (by omega) (by omega)

theorem delete_consistent (hb : b.Consistent) {offset count : ℤ} {c : Buffer}
    (h : b.delete offset count = .ok c) : c.Consistent :=
  replace_consistent hb (ofText_consistent []) h

end Buffer

/-- What is inserted is consistent when it is a buffer. -/
def Insertion.Consistent : Insertion → Prop
  | .buffer b => b.Consistent
  | _ => True

theorem Insertion.toBuffer_consistent {insertion : Insertion} (h : insertion.Consistent)
    {inserted : Buffer} (hi : insertion.toBuffer = .ok inserted) : inserted.Consistent := by
  cases insertion with
  | text t =>
      cases hi
      exact Buffer.ofText_consistent t
  | buffer b =>
      cases hi
      exact h
  | foreign value => cases hi

namespace Buffer
variable {b : Buffer}

theorem splice_eq_ok {offset count : ℤ} {insertion : Insertion} {c : Buffer} :
    b.splice offset count insertion = .ok c ↔
      ∃ inserted, insertion.toBuffer = .ok inserted ∧ b.replace offset count inserted = .ok c := by
  unfold splice
  rw [bind_eq_ok]
  constructor
  · rintro ⟨_, _, h⟩
    obtain ⟨inserted, hi, hreplace⟩ := bind_eq_ok.mp h
    exact ⟨inserted, hi, mapError_eq_ok.mp hreplace⟩
  · rintro ⟨inserted, hi, h⟩
    have hspan := checkSpan_eq_ok.mpr (replace_eq_ok.mp h).1
    exact ⟨(), mapError_eq_ok.mpr hspan, bind_eq_ok.mpr ⟨inserted, hi, mapError_eq_ok.mpr h⟩⟩

theorem splice_of_span {insertion : Insertion} {inserted : Buffer}
    (hi : insertion.toBuffer = .ok inserted) {offset count : ℤ} (hoffset : 0 ≤ offset)
    (hcount : 0 ≤ count) (hstop : offset + count ≤ b.text.length) :
    b.splice offset count insertion =
      .ok (b.replaced offset.toNat (offset + count).toNat inserted) :=
  splice_eq_ok.mpr ⟨inserted, hi, replace_eq_ok.mpr ⟨⟨hoffset, hcount, hstop⟩, rfl⟩⟩

theorem splice_consistent (hb : b.Consistent) {insertion : Insertion}
    (hi : insertion.Consistent) {offset count : ℤ} {c : Buffer}
    (h : b.splice offset count insertion = .ok c) : c.Consistent := by
  obtain ⟨inserted, hto, hreplace⟩ := splice_eq_ok.mp h
  exact replace_consistent hb (Insertion.toBuffer_consistent hi hto) hreplace

/-! ### Batches -/

theorem deleteEach_cons_eq_ok {base : ℤ} {d : Deletion} {rest : List Deletion} {c : Buffer} :
    b.deleteEach base (d :: rest) = .ok c ↔
      ∃ next, b.delete (d.start - base) d.length = .ok next ∧
        next.deleteEach base rest = .ok c := by
  rw [deleteEach]
  cases b.delete (d.start - base) d.length <;> simp

theorem deleteEach_consistent {base : ℤ} {ranges : List Deletion} (hb : b.Consistent)
    {c : Buffer} (h : b.deleteEach base ranges = .ok c) : c.Consistent := by
  induction ranges generalizing b with
  | nil =>
      cases h
      exact hb
  | cons d rest ih =>
      obtain ⟨next, hd, hrest⟩ := deleteEach_cons_eq_ok.mp h
      exact ih (delete_consistent hb hd) hrest

theorem deleteAll_consistent (hb : b.Consistent) {base : ℤ} {batch : List Deletion} {c : Buffer}
    (h : b.deleteAll base batch = .ok c) : c.Consistent := by
  unfold deleteAll at h
  split at h
  · cases h
  · split at h
    · cases h
    · exact deleteEach_consistent hb (mapError_eq_ok.mp h)

end Buffer

end TracedText
