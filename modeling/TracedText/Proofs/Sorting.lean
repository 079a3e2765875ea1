import Mathlib.Data.Prod.Lex
import Mathlib.Order.Lattice
import TracedText.Buffer.Basic
import TracedText.Map.Entry

/-! # Stable orders

Points are put in the order of their offsets and entries in the order of their generated positions,
and both sorts keep the order of what has one key.  `SortedBy` says so for any key; by
`Point.sort_sortedBy` and `Entry.sort_sortedBy` it holds of the two sorts. -/

namespace TracedText

/-- One list holds the values of another in the order of their keys, and values of one key stand in
the order given. -/
structure SortedBy {α κ : Type} [LE κ] [DecidableEq κ] (key : α → κ) (given sorted : List α) :
    Prop where
  ascending : sorted.Pairwise fun a b => key a ≤ key b
  stable : ∀ k, sorted.filter (fun a => key a = k) = given.filter fun a => key a = k

section
variable {α κ : Type} [LinearOrder κ] {key : α → κ} {le : α → α → Bool}

theorem sortedBy_mergeSort (hle : ∀ a b, le a b = true ↔ key a ≤ key b) (given : List α) :
    SortedBy key given (given.mergeSort le) := by
  have htrans (a b c : α) (hab : le a b = true) (hbc : le b c = true) : le a c = true :=
    (hle a c).mpr (le_trans ((hle a b).mp hab) ((hle b c).mp hbc))
  have htotal (a b : α) : (le a b || le b a) = true := by
    rw [Bool.or_eq_true, hle, hle]
    exact le_total _ _
  refine ⟨(List.pairwise_mergeSort htrans htotal given).imp fun {a b} => (hle a b).mp, ?_⟩
  intro k
  -- The values of one key are a sublist of both lists, and as many in both.
  have hpair : (given.filter fun a => key a = k).Pairwise fun a b => le a b = true := by
    apply List.pairwise_of_forall_mem_list
    intro a ha b hb
    have ha' : key a = k := by simpa using (List.mem_filter.mp ha).2
    have hb' : key b = k := by simpa using (List.mem_filter.mp hb).2
    rw [hle, ha', hb']
  have hsub := List.sublist_mergeSort htrans htotal hpair List.filter_sublist
  have hkept := hsub.filter fun a => key a = k
  simp only [List.filter_filter, Bool.and_self] at hkept
  have hlen := ((List.mergeSort_perm given le).filter fun a => key a = k).length_eq
  exact (hkept.eq_of_length hlen.symm).symm

/-- The values of one list are in another with the same values of every key. -/
theorem mem_of_filter_eq {given other : List α}
    (h : ∀ k, given.filter (fun a => key a = k) = other.filter fun a => key a = k) {a : α}
    (ha : a ∈ given) : a ∈ other := by
  have hmem : a ∈ given.filter fun b => key b = key a :=
    List.mem_filter.mpr ⟨ha, decide_eq_true rfl⟩
  rw [h] at hmem
  exact (List.mem_filter.mp hmem).1

/-- Ascending lists with the same values of every key are the same. -/
theorem eq_of_filter_eq {first second : List α} (hfirst : first.Pairwise fun a b => key a ≤ key b)
    (hsecond : second.Pairwise fun a b => key a ≤ key b)
    (h : ∀ k, first.filter (fun a => key a = k) = second.filter fun a => key a = k) :
    first = second := by
  induction first generalizing second with
  | nil =>
      cases second with
      | nil => rfl
      | cons b rest => cases mem_of_filter_eq (fun k => (h k).symm) List.mem_cons_self
  | cons a rest ih =>
      cases second with
      | nil => cases mem_of_filter_eq h List.mem_cons_self
      | cons b others =>
          have hmem_a : a ∈ b :: others := mem_of_filter_eq h List.mem_cons_self
          have hmem_b : b ∈ a :: rest := mem_of_filter_eq (fun k => (h k).symm) List.mem_cons_self
          -- Each of the two first values is in the other list, so they have one key.
          have hle_a : key b ≤ key a := by
            rcases List.mem_cons.mp hmem_a with rfl | hmem
            · exact le_refl _
            · exact List.rel_of_pairwise_cons hsecond hmem
          have hle_b : key a ≤ key b := by
            rcases List.mem_cons.mp hmem_b with rfl | hmem
            · exact le_refl _
            · exact List.rel_of_pairwise_cons hfirst hmem
          have hkey : key a = key b := le_antisymm hle_b hle_a
          have hsame := h (key b)
          simp only [List.filter_cons, hkey, decide_true, if_true, List.cons.injEq] at hsame
          obtain ⟨rfl, hrest⟩ := hsame
          congr 1
          refine ih hfirst.of_cons hsecond.of_cons fun k => ?_
          by_cases hk : key a = k
          · rw [← hk]
            exact hrest
          · have hother := h k
            rwa [List.filter_cons_of_neg (by simpa using hk),
              List.filter_cons_of_neg (by simpa using hk)] at hother

/-- **There is one stable order of a list.** -/
theorem SortedBy.unique {given sorted other : List α} (h : SortedBy key given sorted)
    (hother : SortedBy key given other) : sorted = other :=
  eq_of_filter_eq h.ascending hother.ascending fun k => (h.stable k).trans (hother.stable k).symm

end

namespace Point

theorem sort_sortedBy (points : List Point) : SortedBy Point.offset points (sort points) :=
  sortedBy_mergeSort (fun _ _ => decide_eq_true_iff) points

theorem mem_sort {p : Point} {points : List Point} : p ∈ sort points ↔ p ∈ points :=
  List.mem_mergeSort

theorem inOrder_iff {points : List Point} :
    inOrder points = true ↔ points.Pairwise fun p q => p.offset ≤ q.offset := by
  fun_induction inOrder points with
  | case1 p q rest ih =>
      rw [Bool.and_eq_true, decide_eq_true_iff, ih, List.pairwise_cons (a := p)]
      refine and_congr_left fun hrest => ?_
      constructor
      · intro hpq r hr
        rcases List.mem_cons.mp hr with rfl | hr
        · exact hpq
        · exact le_trans hpq (List.rel_of_pairwise_cons hrest hr)
      · exact fun h => h q List.mem_cons_self
  | case2 points hshort =>
      apply iff_of_true rfl
      match points with
      | [] => exact .nil
      | [p] => exact List.pairwise_singleton _ p
      | p :: q :: rest => exact absurd rfl (hshort p q rest)

theorem sort_of_ordered {points : List Point} (h : points.Pairwise fun p q => p.offset ≤ q.offset) :
    sort points = points :=
  List.mergeSort_of_pairwise (h.imp decide_eq_true)

end Point

namespace Entry

/-- The generated position; positions are compared by line and then by column. -/
def place (e : Entry) : ℕ ×ₗ ℕ := toLex (e.line, e.column)

theorem le_iff_place (a b : Entry) : a.le b = true ↔ a.place ≤ b.place := by
  simp only [le, place, Bool.or_eq_true, Bool.and_eq_true, decide_eq_true_eq, beq_iff_eq,
    Prod.Lex.toLex_le_toLex]

theorem sort_sortedBy (entries : List Entry) : SortedBy place entries (sort entries) :=
  sortedBy_mergeSort le_iff_place entries

theorem mem_sort {e : Entry} {entries : List Entry} : e ∈ sort entries ↔ e ∈ entries :=
  List.mem_mergeSort

theorem sort_of_ordered {entries : List Entry} (h : entries.Pairwise fun a b => a.place ≤ b.place) :
    sort entries = entries :=
  List.mergeSort_of_pairwise (h.imp fun {a b} hab => (le_iff_place a b).mpr hab)

theorem sort_sort (entries : List Entry) : sort (sort entries) = sort entries :=
  sort_of_ordered (sort_sortedBy entries).ascending

end Entry

end TracedText
