import Mathlib.Data.Prod.Lex
import TracedText.Proofs.Edits

/-! # Batches in order

A plan puts a batch in order from the back of the text to its front.  Then neighbours tell whether any
ranges overlap (`apart_iff_ordered`), and a range that is deleted moves none of those that come after
it.  So no deletion fails once a batch has been checked (`exists_deleteEach`): a batch that fails has
changed nothing (`deleteAll_eq_error`), although its ranges are deleted one by one. -/

namespace TracedText

/-! ### Plans -/

namespace Deletion
variable {d e : Deletion} {batch other : List Deletion}

/-- The ranges have a character in common, or one of them lies inside the other. -/
def Overlaps (d e : Deletion) : Prop := d.start < e.stop ∧ e.start < d.stop

instance (d e : Deletion) : Decidable (d.Overlaps e) :=
  inferInstanceAs (Decidable (_ ∧ _))

theorem overlaps_comm : d.Overlaps e ↔ e.Overlaps d := And.comm

/-- The bounds; ranges are compared by start and then by stop. -/
def bounds (d : Deletion) : ℕ ×ₗ ℕ := toLex (d.start, d.stop)

theorem bounds_injective : Function.Injective bounds := by
  rintro ⟨start, stop, _⟩ ⟨start', stop', _⟩ h
  obtain ⟨rfl, rfl⟩ := Prod.mk.inj (toLex_inj.mp h)
  rfl

theorem notBefore_iff : d.notBefore e = true ↔ e.bounds ≤ d.bounds := by
  simp only [notBefore, bounds, Bool.or_eq_true, Bool.and_eq_true, decide_eq_true_eq, beq_iff_eq,
    Prod.Lex.toLex_le_toLex, eq_comm (a := e.start)]

/-- In the order of a plan the ranges overlap unless the second ends where the first starts or in
front of it. -/
theorem overlaps_iff_of_le (h : e.bounds ≤ d.bounds) : d.Overlaps e ↔ d.start < e.stop := by
  have := d.start_le_stop
  rw [bounds, bounds, Prod.Lex.toLex_le_toLex] at h
  unfold Overlaps
  omega

/-- The batch from the back of the text to its front. -/
def ordered (batch : List Deletion) : List Deletion := batch.mergeSort notBefore

theorem ordered_pairwise (batch : List Deletion) :
    (ordered batch).Pairwise fun d e => e.bounds ≤ d.bounds := by
  refine (List.pairwise_mergeSort ?_ ?_ batch).imp notBefore_iff.mp
  · intro d e f hde hef
    exact notBefore_iff.mpr (le_trans (notBefore_iff.mp hef) (notBefore_iff.mp hde))
  · intro d e
    rw [Bool.or_eq_true, notBefore_iff, notBefore_iff]
    exact le_total _ _

theorem ordered_perm (batch : List Deletion) : (ordered batch).Perm batch :=
  List.mergeSort_perm batch notBefore

theorem ordered_congr (h : batch.Perm other) : ordered batch = ordered other := by
  have hperm : (ordered batch).Perm (ordered other) :=
    (ordered_perm batch).trans (h.trans (ordered_perm other).symm)
  refine hperm.eq_of_pairwise ?_ (ordered_pairwise batch) (ordered_pairwise other)
  exact fun d e _ _ hde hed => bounds_injective (le_antisymm hed hde)

/-- No two ranges of the batch overlap. -/
def Apart (batch : List Deletion) : Prop := batch.Pairwise fun d e => ¬d.Overlaps e

instance (batch : List Deletion) : Decidable (Apart batch) :=
  inferInstanceAs (Decidable (batch.Pairwise _))

theorem apart_congr (h : batch.Perm other) : Apart batch ↔ Apart other :=
  h.pairwise_iff fun hde hed => hde (overlaps_comm.mp hed)

/-- **Neighbours tell whether any ranges overlap**, when the ranges are in the order of a plan. -/
theorem overlap?_eq_none_iff (h : batch.Pairwise fun d e => e.bounds ≤ d.bounds) :
    overlap? batch = none ↔ batch.Pairwise fun d e => e.stop ≤ d.start := by
  fun_induction overlap? batch with
  | case1 d e rest hlt =>
      refine iff_of_false nofun fun hapart => ?_
      exact absurd (List.rel_of_pairwise_cons hapart List.mem_cons_self) (by omega)
  | case2 d e rest hle ih =>
      rw [ih (List.pairwise_cons.mp h).2, List.pairwise_cons (a := d)]
      refine ⟨fun hrest => ⟨?_, hrest⟩, And.right⟩
      intro f hf
      rcases List.mem_cons.mp hf with rfl | hf
      · omega
      · have := List.rel_of_pairwise_cons hrest hf
        have := e.start_le_stop
        omega
  | case3 batch hshort =>
      apply iff_of_true rfl
      match batch with
      | [] => exact .nil
      | [d] => exact List.pairwise_singleton _ d
      | d :: e :: rest => exact absurd rfl (hshort d e rest)

/-- What is found are neighbours, of which the one in front reaches into the one behind. -/
theorem neighbours_of_overlap? {found : Overlap} (h : overlap? batch = some found) :
    [found.behind, found.front] <:+: batch ∧ found.behind.start < found.front.stop := by
  fun_induction overlap? batch with
  | case1 d e rest hlt =>
      cases h
      exact ⟨(List.prefix_append [d, e] rest).isInfix, hlt⟩
  | case2 d e rest _ ih =>
      obtain ⟨hneighbours, hlt⟩ := ih h
      exact ⟨hneighbours.trans (List.suffix_cons d (e :: rest)).isInfix, hlt⟩
  | case3 batch hshort => cases h

theorem mem_of_neighbours (h : [d, e] <:+: ordered batch) : e ∈ batch ∧ d ∈ batch := by
  have hmem : ∀ f ∈ [d, e], f ∈ batch := fun f hf => (ordered_perm batch).mem_iff.mp (h.subset hf)
  exact ⟨hmem e (List.mem_cons_of_mem d List.mem_cons_self), hmem d List.mem_cons_self⟩

theorem apart_iff_ordered :
    Apart batch ↔ (ordered batch).Pairwise fun d e => e.stop ≤ d.start := by
  rw [← apart_congr (ordered_perm batch), Apart]
  refine ⟨fun h => ?_, fun h => ?_⟩
  · apply (h.and (ordered_pairwise batch)).imp
    rintro d e ⟨hapart, hle⟩
    rw [overlaps_iff_of_le hle] at hapart
    omega
  · apply (h.and (ordered_pairwise batch)).imp
    rintro d e ⟨hstop, hle⟩
    rw [overlaps_iff_of_le hle]
    omega

theorem plan_of_apart (h : Apart batch) : Deletion.plan batch = .ok (ordered batch) := by
  have hnone := (overlap?_eq_none_iff (ordered_pairwise batch)).mpr (apart_iff_ordered.mp h)
  unfold ordered at hnone
  rw [Deletion.plan]
  simp only [hnone]
  rfl

/-- A batch with ranges that overlap is refused, because of two that overlap and are neighbours in
the order of a plan. -/
theorem plan_of_not_apart (h : ¬Apart batch) :
    ∃ found, Deletion.plan batch = .error found ∧
      [found.behind, found.front] <:+: ordered batch ∧ found.front.Overlaps found.behind := by
  have hsome : overlap? (ordered batch) ≠ none := by
    rw [Ne, overlap?_eq_none_iff (ordered_pairwise batch), ← apart_iff_ordered]
    exact h
  obtain ⟨found, hfound⟩ := Option.ne_none_iff_exists'.mp hsome
  obtain ⟨hneighbours, hlt⟩ := neighbours_of_overlap? hfound
  have hle : found.front.bounds ≤ found.behind.bounds :=
    List.rel_of_pairwise_cons ((ordered_pairwise batch).sublist hneighbours.sublist)
      List.mem_cons_self
  refine ⟨found, ?_, hneighbours, overlaps_comm.mp ((overlaps_iff_of_le hle).mpr hlt)⟩
  rw [ordered] at hfound
  rw [Deletion.plan]
  simp only [hfound]

theorem plan_congr (h : batch.Perm other) : Deletion.plan other = Deletion.plan batch := by
  have hordered : batch.mergeSort notBefore = other.mergeSort notBefore := ordered_congr h
  rw [Deletion.plan, Deletion.plan, hordered]

end Deletion

/-! ### One after the other -/

namespace Buffer
variable {b : Buffer} {base : ℤ} {d : Deletion} {batch : List Deletion}

theorem covers_iff :
    b.covers base d = true ↔ base ≤ d.start ∧ (d.stop : ℤ) ≤ base + b.text.length := by
  rw [covers, Bool.and_eq_true, decide_eq_true_eq, decide_eq_true_eq]
  omega

theorem delete_of_covers (h : b.covers base d = true) :
    b.delete (d.start - base) d.length =
      .ok (b.replaced (d.start - base).toNat (d.stop - base).toNat (ofText [])) := by
  have hcovers := covers_iff.mp h
  have hd := d.start_le_stop
  have hstop : (d.start - base + d.length : ℤ) = d.stop - base := by
    unfold Deletion.length
    omega
  rw [delete, replace_eq_ok, hstop]
  exact ⟨by omega, rfl⟩

/-- A range in front of one that is deleted stays in the buffer. -/
theorem covers_replaced {e : Deletion} (hd : b.covers base d = true)
    (he : b.covers base e = true) (hfront : e.stop ≤ d.start) :
    (b.replaced (d.start - base).toNat (d.stop - base).toNat (ofText [])).covers base e = true := by
  have hin := covers_iff.mp hd
  have hein := covers_iff.mp he
  have hle := d.start_le_stop
  rw [covers_iff]
  simp only [replaced, ofText, List.length_append, List.length_take, List.length_drop,
    List.length_nil]
  omega

/-- Ranges that lie in the buffer are deleted from the back to the front without a failure, if none
reaches into those behind it. -/
theorem exists_deleteEach {ranges : List Deletion} (hcovers : ∀ d ∈ ranges, b.covers base d = true)
    (hapart : ranges.Pairwise fun d e => e.stop ≤ d.start) :
    ∃ c, b.deleteEach base ranges = .ok c := by
  induction ranges generalizing b with
  | nil => exact ⟨b, rfl⟩
  | cons d rest ih =>
      obtain ⟨hfront, hrest⟩ := List.pairwise_cons.mp hapart
      have hd := hcovers d List.mem_cons_self
      obtain ⟨c, hc⟩ := ih (fun e he =>
        covers_replaced hd (hcovers e (List.mem_cons_of_mem d he)) (hfront e he)) hrest
      exact ⟨c, deleteEach_cons_eq_ok.mpr ⟨_, delete_of_covers hd, hc⟩⟩

theorem deleteAll_of_find? (hapart : Deletion.Apart batch)
    (h : (Deletion.ordered batch).find? (fun d => !b.covers base d) = some d) :
    b.deleteAll base batch =
      .error (.range (.deletionOutside d.start d.stop base b.text.length), b) := by
  simp only [deleteAll, Deletion.plan_of_apart hapart, h]

theorem deleteAll_of_inside (hapart : Deletion.Apart batch)
    (h : (Deletion.ordered batch).find? (fun d => !b.covers base d) = none) :
    b.deleteAll base batch = (b.deleteEach base (Deletion.ordered batch)).mapError
      fun failed => (.range failed.1, failed.2) := by
  simp only [deleteAll, Deletion.plan_of_apart hapart, h]

theorem deleteAll_of_plan_eq_error {found : Overlap} (h : Deletion.plan batch = .error found) :
    b.deleteAll base batch = .error (.overlap found, b) := by
  simp only [deleteAll, h]

/-- **A batch that fails has changed nothing.** -/
theorem deleteAll_eq_error {error : BatchError} {left : Buffer}
    (h : b.deleteAll base batch = .error (error, left)) : left = b := by
  by_cases hapart : Deletion.Apart batch
  · cases hfind : (Deletion.ordered batch).find? fun d => !b.covers base d with
    | some d =>
        rw [deleteAll_of_find? hapart hfind] at h
        exact (Prod.mk.inj (Except.error.inj h)).2.symm
    | none =>
        -- This is where a deletion would have to fail on the way, and none does.
        have hcovers : ∀ d ∈ Deletion.ordered batch, b.covers base d = true := by
          simpa using List.find?_eq_none.mp hfind
        obtain ⟨c, hc⟩ := exists_deleteEach hcovers (Deletion.apart_iff_ordered.mp hapart)
        rw [deleteAll_of_inside hapart hfind, hc] at h
        exact nomatch h
  · obtain ⟨found, hplan, -⟩ := Deletion.plan_of_not_apart hapart
    rw [deleteAll_of_plan_eq_error hplan] at h
    exact (Prod.mk.inj (Except.error.inj h)).2.symm

end Buffer

end TracedText
