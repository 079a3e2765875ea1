import TracedText.Proofs.Batches

/-! # Plans

A plan looks only at ranges that stand next to each other when the batch is in order.  This finds an
overlap whenever two ranges of the batch overlap (`clashes_iff_not_apart`), since a range that reaches
into one further back also reaches into all between them.  `plan_outcome` says what a plan comes to for
every batch, and with which words it is refused. -/

namespace TracedText

namespace Overlap
variable {found : Overlap}

/-- The failure in words. -/
def words (found : Overlap) : String :=
  String.join ["Deletion [", toString found.front.start, ", ", toString found.front.stop,
    ") overlaps [", toString found.behind.start, ", ", toString found.behind.stop, ")"]

theorem message_said (found : Overlap) : found.message.said = found.words := by
  rw [← String.toList_inj, words, String.toList_join]
  simp only [Message.said, message, String.toList_ofList, List.flatMap_cons, List.flatMap_nil,
    Piece.said, integerText_natCast]

theorem told_words (hfront : found.front.stop < Nat.pow 10 Bounds.digits)
    (hbehind : found.behind.stop < Nat.pow 10 Bounds.digits) :
    (Failure.overlap found).told = (.overlap found, some found.words) := by
  rw [Failure.told_said rfl (message_sayable_iff.mpr ⟨hfront, hbehind⟩), message_said]

theorem told_of_long (h : Nat.pow 10 Bounds.digits ≤ found.front.stop ∨
      Nat.pow 10 Bounds.digits ≤ found.behind.stop) :
    (Failure.overlap found).told = (.unsayable .longNumber, none) := by
  refine Failure.told_of_long rfl (by simp [message]) fun hsayable => ?_
  obtain ⟨hfront, hbehind⟩ := message_sayable_iff.mp hsayable
  exact h.elim (Nat.not_le.mpr hfront) (Nat.not_le.mpr hbehind)

end Overlap

namespace Deletion
variable {batch : List Deletion}

/-- Two ranges at different places of the batch overlap. -/
def Clashes (batch : List Deletion) : Prop :=
  ∃ (i j : ℕ) (d e : Deletion), i ≠ j ∧ batch[i]? = some d ∧ batch[j]? = some e ∧
    d.start < e.stop ∧ e.start < d.stop

theorem clashes_iff_not_apart : Clashes batch ↔ ¬Apart batch := by
  rw [Apart, List.pairwise_iff_getElem]
  constructor
  · rintro ⟨i, j, d, e, hne, hd, he, hoverlap⟩ hapart
    obtain ⟨hi, rfl⟩ := List.getElem?_eq_some_iff.mp hd
    obtain ⟨hj, rfl⟩ := List.getElem?_eq_some_iff.mp he
    rcases Nat.lt_or_gt_of_ne hne with hlt | hlt
    · exact hapart i j hi hj hlt hoverlap
    · exact hapart j i hj hi hlt (overlaps_comm.mp hoverlap)
  · intro h
    push Not at h
    obtain ⟨i, j, hi, hj, hlt, hoverlap⟩ := h
    exact ⟨i, j, _, _, hlt.ne, List.getElem?_eq_getElem hi, List.getElem?_eq_getElem hj, hoverlap⟩

/-- **What a plan comes to.**  A batch is refused exactly when two of its ranges overlap.  Two ranges
that overlap and stand next to each other in order are told then, unless one of them ends at too long
a number for words.  Else the plan is the batch from the back of the text to its front, and no range
reaches into those before it in the plan.  The order of the batch does not matter. -/
theorem plan_outcome (batch : List Deletion) :
    (Clashes batch → ∃ found, plan batch = .error found ∧
      found.front ∈ batch ∧ found.behind ∈ batch ∧ found.front.Overlaps found.behind ∧
      [found.behind, found.front] <:+: ordered batch ∧
      (found.front.stop < Nat.pow 10 Bounds.digits → found.behind.stop < Nat.pow 10 Bounds.digits →
        (Failure.overlap found).told = (.overlap found, some found.words)) ∧
      (Nat.pow 10 Bounds.digits ≤ found.front.stop ∨ Nat.pow 10 Bounds.digits ≤ found.behind.stop →
        (Failure.overlap found).told = (.unsayable .longNumber, none))) ∧
    (¬Clashes batch → ∃ ranges, plan batch = .ok ranges ∧ ranges.Perm batch ∧
      ranges.Pairwise (fun d e => toLex (e.start, e.stop) ≤ toLex (d.start, d.stop)) ∧
      ranges.Pairwise fun d e => e.stop ≤ d.start) ∧
    ∀ other, batch.Perm other → plan other = plan batch := by
  refine ⟨fun hclash => ?_, fun hnone => ?_, fun other hperm => plan_congr hperm⟩
  · obtain ⟨found, hplan, hneighbours, hoverlap⟩ :=
      plan_of_not_apart (clashes_iff_not_apart.mp hclash)
    obtain ⟨hfront, hbehind⟩ := mem_of_neighbours hneighbours
    exact ⟨found, hplan, hfront, hbehind, hoverlap, hneighbours, Overlap.told_words,
      Overlap.told_of_long⟩
  · have hapart : Apart batch := not_not.mp fun h => hnone (clashes_iff_not_apart.mpr h)
    exact ⟨ordered batch, plan_of_apart hapart, ordered_perm batch, ordered_pairwise batch,
      apart_iff_ordered.mp hapart⟩

/-- A range that is empty and lies inside another, which touches a third. -/
def nested : List Deletion := [⟨4, 9, by decide⟩, ⟨0, 4, by decide⟩, ⟨6, 6, by decide⟩]

/-- Ranges that touch, with empty ranges at both ends of one of them, one of them twice. -/
def touching : List Deletion :=
  [⟨4, 4, by decide⟩, ⟨4, 9, by decide⟩, ⟨9, 9, by decide⟩, ⟨0, 4, by decide⟩, ⟨4, 4, by decide⟩]

theorem plan_outcome_nested :
    plan nested = .error ⟨⟨4, 9, by decide⟩, ⟨6, 6, by decide⟩⟩ ∧
      (Failure.overlap ⟨⟨4, 9, by decide⟩, ⟨6, 6, by decide⟩⟩).told =
        (.overlap ⟨⟨4, 9, by decide⟩, ⟨6, 6, by decide⟩⟩, some "Deletion [4, 9) overlaps [6, 6)") ∧
      plan nested.reverse = plan nested ∧
      ∃ ranges, plan touching = .ok ranges ∧ ranges.Perm touching := by
  have hclash : Clashes nested := ⟨0, 2, _, _, by decide, rfl, rfl, by decide, by decide⟩
  have hplan : plan nested = .error ⟨⟨4, 9, by decide⟩, ⟨6, 6, by decide⟩⟩ := by cbv
  have hnone : ¬Clashes touching := fun h => clashes_iff_not_apart.mp h (by decide)
  obtain ⟨hrefused, -, hperm⟩ := plan_outcome nested
  obtain ⟨found, hfound, -, -, -, -, htold, -⟩ := hrefused hclash
  obtain rfl := Except.error.inj (hfound.symm.trans hplan)
  obtain ⟨ranges, hranges, hkept, -⟩ := (plan_outcome touching).2.1 hnone
  exact ⟨hplan, htold (lt_pow_digits (by decide)) (lt_pow_digits (by decide)),
    hperm _ (List.reverse_perm nested).symm, ranges, hranges, hkept⟩

/-- The range from the start of the text. -/
def upTo (stop : ℕ) : Deletion := ⟨0, stop, Nat.zero_le stop⟩

/-- An overlap is not told as such when a range ends at too long a number. -/
theorem plan_upTo_far : ∃ found,
    plan [upTo (Nat.pow 10 Bounds.digits), upTo (Nat.pow 10 Bounds.digits)] = .error found ∧
      (Failure.overlap found).told = (.unsayable .longNumber, none) := by
  have hfar (stop : ℕ) (h : Nat.pow 10 Bounds.digits ≤ stop) : ∃ found,
      plan [upTo stop, upTo stop] = .error found ∧
        (Failure.overlap found).told = (.unsayable .longNumber, none) := by
    have hstop : 0 < stop := Nat.lt_of_lt_of_le (by decide) (ten_le_pow_digits.trans h)
    have hclash : Clashes [upTo stop, upTo stop] := ⟨0, 1, _, _, by decide, rfl, rfl, hstop, hstop⟩
    obtain ⟨found, hplan, hneighbours, -⟩ :=
      plan_of_not_apart (clashes_iff_not_apart.mp hclash)
    obtain ⟨hmem, -⟩ := mem_of_neighbours hneighbours
    have hfront : found.front = upTo stop := by simpa using hmem
    refine ⟨found, hplan, Overlap.told_of_long (Or.inl ?_)⟩
    rw [hfront]
    exact h
  exact hfar _ (le_refl _)

end Deletion

end TracedText
