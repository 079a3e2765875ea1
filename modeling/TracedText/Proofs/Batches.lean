import TracedText.Proofs.Coordinates
import TracedText.Proofs.Messages
import TracedText.Proofs.SessionRuns
import TracedText.Proofs.Tracking

/-! # Batches delete at once

A batch of ranges is deleted one range after the other, from the back of the text to its front.  The
result is that of deleting all of them at once (`Buffer.without`): in a batch that is in order and
without overlaps no range moves those that come after it, so each deletion succeeds and takes away
what its range held in the text before (`deleteEach_eq`).  `Deletion.apart_iff_ordered` says which
batches have an order without overlaps, and `step_deleteAll` is the statement for sessions. -/

namespace TracedText

/-! ### Deleting at once -/

namespace Deletion
variable (base : ℤ)

/-- The offset of a buffer, whose text starts at `base`, lies in the range. -/
def Holds (offset : ℤ) (d : Deletion) : Prop := d.start - base ≤ offset ∧ offset < d.stop - base

instance (offset : ℤ) (d : Deletion) : Decidable (Holds base offset d) :=
  inferInstanceAs (Decidable (_ ∧ _))

/-- The number of characters in the ranges that end at an offset or in front of it. -/
def lengthUpTo (batch : List Deletion) (offset : ℤ) : ℕ :=
  ((batch.filter fun d => d.stop - base ≤ offset).map length).sum

end Deletion

/-- The buffer without all that lies in any of the ranges, taken in the offsets that the buffer has
now: the other points move by the length of the ranges in front of them. -/
def Buffer.without (b : Buffer) (base : ℤ) (batch : List Deletion) : Buffer where
  text := (b.text.zipIdx.filter fun c => ∀ d ∈ batch, ¬d.Holds base c.2).map Prod.fst
  points :=
    (b.points.filter fun p => ∀ d ∈ batch, ¬d.Holds base p.offset).map fun p =>
      p.shift (-(Deletion.lengthUpTo base batch p.offset))

/-! ### One range -/

/-- Where the places that are kept of a text without its part from `start` up to `stop` are those in
front of the part that were kept before, and all behind. -/
theorem kept_of_cut (keep keepRest : ℕ → Bool) {t : Text} {start stop : ℕ} (h : start ≤ stop)
    (hstop : stop ≤ t.length) (hfront : ∀ i < start, keepRest i = keep i)
    (hrest : ∀ i, start ≤ i → keepRest i = true)
    (hcut : ∀ i, start ≤ i → i < stop → keep i = false) (hrear : ∀ i, stop ≤ i → keep i = true) :
    ((t.take start ++ t.drop stop).zipIdx.filter fun c => keepRest c.2).map Prod.fst =
      (t.zipIdx.filter fun c => keep c.2).map Prod.fst := by
  have hsplit : t.take start ++ ((t.take stop).drop start ++ t.drop stop) = t := by
    rw [Text.drop_take_append h, List.take_append_drop]
  have hlength : (t.take start).length = start := by
    rw [List.length_take]
    omega
  have hmiddle : ((t.take stop).drop start).length = stop - start := by
    rw [List.length_drop, List.length_take]
    omega
  conv => rhs; rw [← hsplit]
  simp only [List.zipIdx_append, List.filter_append, List.map_append, hlength, hmiddle, Nat.zero_add]
  have hsame : (t.take start).zipIdx.filter (fun c => keepRest c.2) =
      (t.take start).zipIdx.filter fun c => keep c.2 := by
    apply List.filter_congr
    rintro ⟨c, i⟩ hc
    have := List.snd_lt_of_mem_zipIdx hc
    exact hfront i (by omega)
  have hnone : (((t.take stop).drop start).zipIdx start).filter (fun c => keep c.2) = [] := by
    rw [List.filter_eq_nil_iff]
    rintro ⟨c, i⟩ hc
    have := List.le_snd_of_mem_zipIdx hc
    have := List.snd_lt_add_of_mem_zipIdx hc
    rw [hcut i (by omega) (by omega)]
    exact Bool.false_ne_true
  have hall (kept : ℕ → Bool) (n : ℕ) (hkept : ∀ i, n ≤ i → kept i = true) :
      (((t.drop stop).zipIdx n).filter fun c => kept c.2).map Prod.fst = t.drop stop := by
    rw [List.filter_eq_self.mpr, List.zipIdx_map_fst]
    rintro ⟨c, i⟩ hc
    exact hkept i (List.le_snd_of_mem_zipIdx hc)
  rw [hsame, hnone, hall keepRest _ hrest, hall keep _ fun i hi => hrear i (by omega)]
  rfl

namespace Point
variable {base : ℤ} {d : Deletion} {rest : List Deletion}

/-- What becomes of a point when all ranges are deleted at once. -/
def surviving (base : ℤ) (batch : List Deletion) (p : Point) : Option Point :=
  if ∀ d ∈ batch, ¬d.Holds base p.offset then
    some (p.shift (-(Deletion.lengthUpTo base batch p.offset)))
  else none

theorem surviving_cons_of_front {p : Point} (h : p.offset < d.start - base) :
    p.surviving base (d :: rest) = p.surviving base rest := by
  have hd := d.start_le_stop
  have hheld : ¬d.Holds base p.offset := fun hheld => absurd hheld.1 (by omega)
  have hcount : ¬(d.stop - base ≤ p.offset) := by omega
  simp only [surviving, List.forall_mem_cons, hheld, not_false_eq_true, true_and,
    Deletion.lengthUpTo, List.filter_cons, hcount, decide_false, Bool.false_eq_true, if_false]

theorem surviving_cons_of_holds {p : Point} (h : d.Holds base p.offset) :
    p.surviving base (d :: rest) = none :=
  if_neg fun hall => hall d List.mem_cons_self h

theorem surviving_of_behind {batch : List Deletion} {p : Point}
    (h : ∀ d ∈ batch, d.stop - base ≤ p.offset) :
    p.surviving base batch = some (p.shift (-((batch.map Deletion.length).sum : ℕ))) := by
  have hheld : ∀ d ∈ batch, ¬d.Holds base p.offset :=
    fun d hd hheld => absurd hheld.2 (by have := h d hd; omega)
  have hpast : ∀ d ∈ batch, decide (d.stop - base ≤ p.offset) = true :=
    fun d hd => decide_eq_true (h d hd)
  rw [surviving, if_pos hheld, Deletion.lengthUpTo, List.filter_eq_self.mpr hpast]

theorem moved_surviving (hbase : base ≤ d.start) (hrest : ∀ e ∈ rest, e.stop ≤ d.start)
    (p : Point) :
    (p.moved (d.start - base).toNat (d.stop - base).toNat 0).bind (surviving base rest) =
      p.surviving base (d :: rest) := by
  have hd := d.start_le_stop
  have hstart : (((d.start - base).toNat : ℕ) : ℤ) = d.start - base := Int.toNat_of_nonneg (by omega)
  have hstop : (((d.stop - base).toNat : ℕ) : ℤ) = d.stop - base := Int.toNat_of_nonneg (by omega)
  have hlength : (((d.stop - base).toNat - (d.start - base).toNat : ℕ) : ℤ) = d.length := by
    unfold Deletion.length
    omega
  unfold moved
  rw [hstart, hstop, hlength, Int.ofNat_zero]
  split_ifs with hfront hcut
  · exact (surviving_cons_of_front hfront).symm
  · exact (surviving_cons_of_holds ⟨by omega, hcut⟩).symm
  · have hmoved : ∀ e ∈ rest, e.stop - base ≤ (p.shift (0 - d.length)).offset := by
      intro e he
      have := hrest e he
      simp only [shift, Deletion.length]
      omega
    have hall : ∀ e ∈ d :: rest, e.stop - base ≤ p.offset := by
      rw [List.forall_mem_cons]
      refine ⟨by omega, fun e he => ?_⟩
      have := hrest e he
      omega
    rw [Option.bind_some, surviving_of_behind hmoved, surviving_of_behind hall, shift_shift,
      List.map_cons, List.sum_cons]
    congr 2
    omega

end Point

namespace Buffer
variable {b : Buffer} {base : ℤ} {d : Deletion} {rest batch other : List Deletion}

theorem without_points :
    (b.without base batch).points = b.points.filterMap (Point.surviving base batch) := by
  simp only [without]
  rw [← List.filterMap_eq_map, List.filterMap_filter]
  apply List.filterMap_congr
  intro p _
  simp only [Point.surviving, decide_eq_true_eq, Function.comp_apply]

theorem without_nil : b.without base [] = b := by
  simp [without, Deletion.lengthUpTo]

theorem without_congr (h : batch.Perm other) : b.without base batch = b.without base other := by
  have hall (offset : ℤ) : (∀ d ∈ batch, ¬d.Holds base offset) ↔
      ∀ d ∈ other, ¬d.Holds base offset := by
    simp only [h.mem_iff]
  have hlength (offset : ℤ) :
      Deletion.lengthUpTo base batch offset = Deletion.lengthUpTo base other offset :=
    ((h.filter _).map _).sum_eq
  simp only [without, hall, hlength]

theorem without_replaced_text (hd : b.covers base d = true) (hrest : ∀ e ∈ rest, e.stop ≤ d.start) :
    ((b.replaced (d.start - base).toNat (d.stop - base).toNat (ofText [])).without base rest).text =
      (b.without base (d :: rest)).text := by
  have hcovers := covers_iff.mp hd
  have hle := d.start_le_stop
  have hcut : (b.replaced (d.start - base).toNat (d.stop - base).toNat (ofText [])).text =
      b.text.take (d.start - base).toNat ++ b.text.drop (d.stop - base).toNat := by
    simp only [replaced, ofText, List.append_nil]
  simp only [without, hcut]
  apply kept_of_cut (fun i => decide (∀ e ∈ d :: rest, ¬e.Holds base i))
    (fun i => decide (∀ e ∈ rest, ¬e.Holds base i)) (by omega) (by omega)
  · intro i hi
    have hheld : ¬d.Holds base i := fun hheld => absurd hheld.1 (by omega)
    simp only [List.forall_mem_cons, hheld, not_false_eq_true, true_and]
  · intro i hi
    refine decide_eq_true fun e he hheld => absurd hheld.2 ?_
    have := hrest e he
    omega
  · intro i hi hi'
    exact decide_eq_false fun hall => hall d List.mem_cons_self ⟨by omega, by omega⟩
  · intro i hi
    refine decide_eq_true fun e he hheld => absurd hheld.2 ?_
    rcases List.mem_cons.mp he with rfl | he
    · omega
    · have := hrest e he
      omega

/-- Deleting a range and then those in front of it is deleting all at once. -/
theorem without_replaced (hb : b.Consistent) (hd : b.covers base d = true)
    (hrest : ∀ e ∈ rest, e.stop ≤ d.start) :
    (b.replaced (d.start - base).toNat (d.stop - base).toNat (ofText [])).without base rest =
      b.without base (d :: rest) := by
  have hcovers := covers_iff.mp hd
  have hle := d.start_le_stop
  have hpoints : ((b.replaced (d.start - base).toNat (d.stop - base).toNat (ofText [])).without base
      rest).points = (b.without base (d :: rest)).points := by
    rw [without_points, without_points, replaced_text_points hb (by omega),
      List.filterMap_filterMap]
    apply List.filterMap_congr
    intro p _
    exact Point.moved_surviving hcovers.1 hrest p
  exact congrArg₂ Buffer.mk (without_replaced_text hd hrest) hpoints

/-- **Deleting ranges from the back to the front succeeds and is deleting them at once**, when they
lie in the buffer and none reaches into those behind it. -/
theorem deleteEach_eq (hb : b.Consistent) {ranges : List Deletion}
    (hcovers : ∀ d ∈ ranges, b.covers base d = true)
    (hapart : ranges.Pairwise fun d e => e.stop ≤ d.start) :
    b.deleteEach base ranges = .ok (b.without base ranges) := by
  induction ranges generalizing b with
  | nil => rw [deleteEach, without_nil]
  | cons d rest ih =>
      obtain ⟨hfront, hrest⟩ := List.pairwise_cons.mp hapart
      have hd := hcovers d List.mem_cons_self
      have hdelete := delete_of_covers hd
      have hcoversRest : ∀ e ∈ rest,
          (b.replaced (d.start - base).toNat (d.stop - base).toNat (ofText [])).covers base e =
            true :=
        fun e he => covers_replaced hd (hcovers e (List.mem_cons_of_mem d he)) (hfront e he)
      have hnext := delete_consistent hb hdelete
      rw [← without_replaced hb hd hfront]
      exact deleteEach_cons_eq_ok.mpr ⟨_, hdelete, ih hnext hcoversRest hrest⟩

theorem deleteEach_append_eq_ok {c : Buffer} {front : List Deletion} :
    b.deleteEach base (front ++ rest) = .ok c ↔
      ∃ next, b.deleteEach base front = .ok next ∧ next.deleteEach base rest = .ok c := by
  induction front generalizing b with
  | nil => simp [deleteEach]
  | cons d front ih =>
      simp only [List.cons_append, deleteEach_cons_eq_ok, ih]
      constructor
      · rintro ⟨next, hd, left, hfront, hrest⟩
        exact ⟨left, ⟨next, hd, hfront⟩, hrest⟩
      · rintro ⟨left, ⟨next, hd, hfront⟩, hrest⟩
        exact ⟨next, hd, left, hfront, hrest⟩

/-! ### Batches -/

/-- The range lies in the buffer, whose text starts at `base`. -/
def Fits (b : Buffer) (base : ℤ) (d : Deletion) : Prop :=
  base ≤ d.start ∧ d.stop ≤ base + b.text.length

instance (b : Buffer) (base : ℤ) (d : Deletion) : Decidable (b.Fits base d) :=
  inferInstanceAs (Decidable (_ ∧ _))

theorem deleteAll_of_fits (hb : b.Consistent) (hapart : Deletion.Apart batch)
    (hfits : ∀ d ∈ batch, b.Fits base d) : b.deleteAll base batch = .ok (b.without base batch) := by
  have hcovers : ∀ d ∈ Deletion.ordered batch, b.covers base d = true :=
    fun d hd => covers_iff.mpr (hfits d (List.mem_mergeSort.mp hd))
  have hnone : (Deletion.ordered batch).find? (fun d => !b.covers base d) = none := by
    rw [List.find?_eq_none]
    intro d hd
    rw [hcovers d hd]
    exact Bool.false_ne_true
  have heach := deleteEach_eq hb hcovers (Deletion.apart_iff_ordered.mp hapart)
  rw [without_congr (Deletion.ordered_perm batch)] at heach
  rw [deleteAll_of_inside hapart hnone, heach]
  rfl

/-- Once a batch has passed the checks, no deletion on the way fails. -/
theorem delete_of_plan (hb : b.Consistent) (hfits : ∀ d ∈ batch, b.Fits base d)
    {done : List Deletion} (hplan : Deletion.plan batch = .ok (done ++ d :: rest)) :
    ∃ c next, b.deleteEach base done = .ok c ∧
      c.delete (d.start - base) d.length = .ok next := by
  have hapart : Deletion.Apart batch := by
    by_contra hoverlap
    obtain ⟨found, herror, _⟩ := Deletion.plan_of_not_apart hoverlap
    rw [hplan] at herror
    cases herror
  have hcovers : ∀ e ∈ Deletion.ordered batch, b.covers base e = true :=
    fun e he => covers_iff.mpr (hfits e (List.mem_mergeSort.mp he))
  have hall := deleteEach_eq hb hcovers (Deletion.apart_iff_ordered.mp hapart)
  rw [Deletion.plan_of_apart hapart, Except.ok.injEq] at hplan
  rw [hplan] at hall
  obtain ⟨c, hdone, hrest⟩ := deleteEach_append_eq_ok.mp hall
  obtain ⟨next, hnext, _⟩ := deleteEach_cons_eq_ok.mp hrest
  exact ⟨c, next, hdone, hnext⟩

theorem deleteAll_of_outside (hapart : Deletion.Apart batch) (hout : ∃ d ∈ batch, ¬b.Fits base d) :
    ∃ d ∈ batch, b.deleteAll base batch =
      .error (.range (.deletionOutside d.start d.stop base b.text.length), b) := by
  obtain ⟨d, hd, hfits⟩ := hout
  have hsome : (Deletion.ordered batch).find? (fun d => !b.covers base d) ≠ none := by
    rw [ne_eq, List.find?_eq_none]
    intro hall
    apply hfits
    have := hall d (List.mem_mergeSort.mpr hd)
    exact covers_iff.mp (by simpa using this)
  obtain ⟨e, he⟩ := Option.ne_none_iff_exists'.mp hsome
  exact ⟨e, List.mem_mergeSort.mp (List.mem_of_find?_eq_some he), deleteAll_of_find? hapart he⟩

theorem deleteAll_of_overlap (b : Buffer) (base : ℤ) (h : ¬Deletion.Apart batch) :
    ∃ found, b.deleteAll base batch = .error (.overlap found, b) ∧ found.front ∈ batch ∧
      found.behind ∈ batch := by
  obtain ⟨found, hplan, hneighbours, -⟩ := Deletion.plan_of_not_apart h
  exact ⟨found, deleteAll_of_plan_eq_error hplan, Deletion.mem_of_neighbours hneighbours⟩

theorem deleteAll_congr (h : batch.Perm other) :
    b.deleteAll base batch = b.deleteAll base other := by
  rw [deleteAll, deleteAll, Deletion.plan_congr h]

/-- The bounds of the ranges and of the buffer are short enough to be put into words. -/
structure Worded (b : Buffer) (base : ℤ) (batch : List Deletion) : Prop where
  ranges : ∀ d ∈ batch, d.stop < Nat.pow 10 Bounds.digits
  start : base.natAbs < Nat.pow 10 Bounds.digits
  stop : (base + b.text.length).natAbs < Nat.pow 10 Bounds.digits

end Buffer

/-- The bounds as they are given in a step. -/
def Deletion.range (d : Deletion) : ℤ × ℤ := (d.start, d.stop)

theorem Deletion.ofRanges_range (batch : List Deletion) :
    ofRanges (batch.map Deletion.range) = .ok batch := by
  rw [ofRanges, List.mapM_map]
  conv => rhs; rw [← List.map_id batch]
  apply mapM_ok_map
  intro d _
  have := d.start_le_stop
  show ofBounds d.start d.stop = .ok d
  rw [ofBounds, dif_neg (by omega), dif_neg (by omega)]
  rfl

theorem Overlap.message_sayable_iff {found : Overlap} : found.message.Sayable ↔
    found.front.stop < Nat.pow 10 Bounds.digits ∧ found.behind.stop < Nat.pow 10 Bounds.digits := by
  have hfront := found.front.start_le_stop
  have hbehind := found.behind.start_le_stop
  simp only [message, Message.sayable_cons, Message.sayable_nil, Piece.sayable_words,
    Piece.sayable_natCast, true_and, and_true]
  constructor
  · rintro ⟨-, hfirst, -, hsecond⟩
    exact ⟨hfirst, hsecond⟩
  · rintro ⟨hfirst, hsecond⟩
    exact ⟨lt_of_le_of_lt hfront hfirst, hfirst, lt_of_le_of_lt hbehind hsecond, hsecond⟩

theorem Overlap.message_sayable {found : Overlap}
    (h : ∀ d ∈ [found.front, found.behind], d.stop < Nat.pow 10 Bounds.digits) :
    found.message.Sayable :=
  message_sayable_iff.mpr
    ⟨h _ List.mem_cons_self, h _ (List.mem_cons_of_mem _ List.mem_cons_self)⟩

theorem RangeError.deletionOutside_message_sayable {b : Buffer} {base : ℤ} {batch : List Deletion}
    (h : b.Worded base batch) {d : Deletion} (hd : d ∈ batch) :
    (RangeError.deletionOutside d.start d.stop base b.text.length).message.Sayable := by
  have hstop := h.ranges d hd
  have hstart := lt_of_le_of_lt d.start_le_stop hstop
  have hbase : (Piece.number base).Sayable := h.start
  have hend : (Piece.number (base + b.text.length)).Sayable := h.stop
  simp only [message, Message.sayable_cons, Message.sayable_nil, Piece.sayable_words,
    Piece.sayable_natCast, hstart, hstop, hbase, hend, and_self]

namespace Session
variable {s : Session} {name : String} {b : Buffer}

theorem stepDeleteAll_eq (hs : s.buffers name = some b) (batch : List Deletion) (base : ℤ) :
    s.stepDeleteAll name (batch.map Deletion.range) base =
      match b.deleteAll base batch with
      | .ok c => (.of (.ok (.count batch.length)), s.setBuffer name c)
      | .error failed => (.of (.error (.ofBatch failed.1)), s) := by
  have hgiven : (do
      return (← s.buffer name, ← (Deletion.ofRanges (batch.map Deletion.range)).mapError .range)) =
      (.ok (b, batch) : Except Failure (Buffer × List Deletion)) := by
    rw [buffer_eq_ok.mpr hs, Deletion.ofRanges_range]
    rfl
  rw [stepDeleteAll, hgiven]
  cases hdeleted : b.deleteAll base batch with
  | ok c => simp only [hdeleted]
  | error failed =>
      obtain ⟨error, left⟩ := failed
      obtain rfl : left = b := Buffer.deleteAll_eq_error hdeleted
      simp only [hdeleted, setBuffer_self s hs]

/-- **A batch acts as one deletion.** When its ranges are apart and lie in the buffer, all of them
are deleted at once and their number is given; no deletion on the way fails.  Else the batch fails
and nothing changes: because of an overlap if there is one, and if not because of a range outside the
buffer.  The order of the batch does not matter.  The failure is told as such when the bounds are
short enough to be put into words. -/
theorem step_deleteAll (hs : s.buffers name = some b) (hb : b.Consistent) (dialect : Json.Dialect)
    (base : ℤ) (batch : List Deletion) :
    let next (ranges : List Deletion) :=
      s.step ⟨name, dialect, .deleteAll (ranges.map Deletion.range) base⟩
    (Deletion.Apart batch → (∀ d ∈ batch, b.Fits base d) →
      next batch = (.of (.ok (.count batch.length)), s.setBuffer name (b.without base batch)) ∧
        ∀ done d rest, Deletion.plan batch = .ok (done ++ d :: rest) →
          ∃ c c', b.deleteEach base done = .ok c ∧ c.delete (d.start - base) d.length = .ok c') ∧
    (¬Deletion.Apart batch → ∃ found : Overlap,
      next batch = (.of (.error (.overlap found)), s) ∧
        (b.Worded base batch →
          ∃ words, (Failure.overlap found).told = (.overlap found, some words))) ∧
    (Deletion.Apart batch → (∃ d ∈ batch, ¬b.Fits base d) → ∃ error : RangeError,
      next batch = (.of (.error (.range error)), s) ∧
        (b.Worded base batch →
          ∃ words, (Failure.range error).told = (.range error, some words))) ∧
    ∀ other, batch.Perm other → next other = next batch := by
  intro next
  have hnext (ranges : List Deletion) : next ranges = _ := stepDeleteAll_eq hs ranges base
  refine ⟨?_, ?_, ?_, ?_⟩
  · intro hapart hfits
    refine ⟨?_, fun done d rest hplan => Buffer.delete_of_plan hb hfits hplan⟩
    rw [hnext, Buffer.deleteAll_of_fits hb hapart hfits]
  · intro hoverlap
    obtain ⟨found, hfound, hfront, hbehind⟩ := Buffer.deleteAll_of_overlap b base hoverlap
    refine ⟨found, ?_, fun hwords => ?_⟩
    · rw [hnext, hfound]
      rfl
    · refine Failure.told_of_sayable rfl (Overlap.message_sayable ?_)
      simp only [List.forall_mem_cons]
      exact ⟨hwords.ranges _ hfront, hwords.ranges _ hbehind, nofun⟩
  · intro hapart hout
    obtain ⟨d, hd, hfailed⟩ := Buffer.deleteAll_of_outside hapart hout
    refine ⟨.deletionOutside d.start d.stop base b.text.length, ?_, fun hwords => ?_⟩
    · rw [hnext, hfailed]
      rfl
    · exact Failure.told_of_sayable rfl (RangeError.deletionOutside_message_sayable hwords hd)
  · intro other hperm
    rw [hnext, hnext, Buffer.deleteAll_congr hperm, hperm.length_eq]

/-- A session with the three letters, which are taken to start at ten. -/
def lettered : Session := (start ⟨.single, ["home"]⟩).setBuffer "main" Buffer.letters

/-- The first letter and the third, and an empty range at the start of the first. -/
def outerLetters : List Deletion :=
  [⟨12, 13, by decide⟩, ⟨10, 10, by decide⟩, ⟨10, 11, by decide⟩]

theorem step_deleteAll_outerLetters :
    lettered.buffers "main" = some Buffer.letters ∧ Buffer.letters.Consistent ∧
      lettered.step ⟨"main", .strict, .deleteAll (outerLetters.map Deletion.range) 10⟩ =
        (.of (.ok (.count 3)), lettered.setBuffer "main" ⟨['b'],
          [⟨0, some "s", some 1, some 4, "n"⟩, ⟨1, none, none, none, ""⟩]⟩) := by
  have hs : lettered.buffers "main" = some Buffer.letters := setBuffer_same _ _ _
  have hleft : Buffer.letters.without 10 outerLetters =
      ⟨['b'], [⟨0, some "s", some 1, some 4, "n"⟩, ⟨1, none, none, none, ""⟩]⟩ := by decide
  have hbatch := (step_deleteAll hs Buffer.letters_consistent .strict 10 outerLetters).1
    (by decide) (by decide)
  exact ⟨hs, Buffer.letters_consistent, hbatch.1.trans (by rw [hleft]; rfl)⟩

/-- A place so far back that the text behind it ends at a number too long for words. -/
def farBase : ℤ := (Nat.pow 10 Bounds.digits : ℕ) - 1

theorem one_lt_farBase : 1 < farBase := by
  have hbound := ten_le_pow_digits
  unfold farBase
  generalize Nat.pow 10 Bounds.digits = bound at *
  omega

/-- A batch outside a buffer is not told as such when the end of the buffer is too long a number. -/
theorem step_deleteAll_far :
    ∃ failure, lettered.step ⟨"main", .strict, .deleteAll [(0, 0)] farBase⟩ =
      (.of (.error failure), lettered) ∧ failure.told = (.unsayable .longNumber, none) := by
  have hs : lettered.buffers "main" = some Buffer.letters := setBuffer_same _ _ _
  have hpos := one_lt_farBase
  have hfar : ¬Buffer.letters.Fits farBase ⟨0, 0, le_refl 0⟩ := by
    rintro ⟨hstart, _⟩
    have : farBase ≤ 0 := hstart
    omega
  have hapart : Deletion.Apart [⟨0, 0, le_refl 0⟩] := List.pairwise_singleton _ _
  obtain ⟨d, hd, hfailed⟩ :=
    Buffer.deleteAll_of_outside hapart ⟨_, List.mem_singleton_self _, hfar⟩
  obtain rfl := List.mem_singleton.mp hd
  refine ⟨.range (.deletionOutside 0 0 farBase 3), ?_, ?_⟩
  · have hstep := stepDeleteAll_eq hs [⟨0, 0, le_refl 0⟩] farBase
    rw [hfailed] at hstep
    exact hstep
  · refine Failure.told_of_longNumber
      ["Deletion [", (0 : ℤ), ", ", (0 : ℤ), ") outside buffer [", farBase, ", "] (farBase + 3) rfl
      ?_ ?_
    · unfold Message.Sayable
      simp only [List.forall_mem_cons, Piece.Sayable]
      unfold farBase at *
      generalize Nat.pow 10 Bounds.digits = bound at *
      exact ⟨trivial, by omega, trivial, by omega, trivial, by omega, trivial, nofun⟩
    · unfold farBase at *
      generalize Nat.pow 10 Bounds.digits = bound at *
      omega

end Session

end TracedText
