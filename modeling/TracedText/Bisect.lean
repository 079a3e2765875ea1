/-! # Binary search

`bisect` searches a list by halving it. When the values that a predicate holds of stand in front of
the others, it gives their number, and `take_bisect` and `drop_bisect` cut the list between the two
kinds. -/

namespace TracedText

variable {α : Type} {before : α → Bool}

/-- The place in front of which the search takes the predicate to hold. -/
def bisect (before : α → Bool) (values : List α) : Nat :=
  match hdrop : values.drop (values.length / 2) with
  | [] => 0
  | middle :: behind =>
    if before middle then values.length / 2 + 1 + bisect before behind
    else bisect before (values.take (values.length / 2))
termination_by values.length
decreasing_by
  all_goals
    have := congrArg List.length hdrop
    simp only [List.length_drop, List.length_cons, List.length_take] at this ⊢
    omega

/-- The predicate holds of everything in front of a value that it holds of. -/
def Parted (before : α → Bool) (values : List α) : Prop :=
  values.Pairwise fun a b => before b = true → before a = true

theorem Parted.of_pairwise {r : α → α → Prop} {values : List α} (h : values.Pairwise r)
    (hr : ∀ a b, r a b → before b = true → before a = true) : Parted before values :=
  h.imp fun {a b} => hr a b

theorem parted_append {front rear : List α} :
    Parted before (front ++ rear) ↔ Parted before front ∧ Parted before rear ∧
      ∀ a ∈ front, ∀ b ∈ rear, before b = true → before a = true :=
  List.pairwise_append

theorem filter_eq_nil_of_parted {a : α} {values : List α} (h : Parted before (a :: values))
    (ha : before a = false) : values.filter before = [] := by
  rw [List.filter_eq_nil_iff]
  intro b hb hbb
  rw [(List.pairwise_cons.mp h).1 b hb hbb] at ha
  cases ha

theorem bisect_eq_length_filter {values : List α} (h : Parted before values) :
    bisect before values = (values.filter before).length := by
  fun_induction bisect before values with
  | case1 values hdrop =>
      rw [List.drop_eq_nil_iff] at hdrop
      have : values = [] := List.eq_nil_of_length_eq_zero (by omega)
      simp [this]
  | case2 values middle behind hdrop hm ih =>
      have hcut := List.take_append_drop (values.length / 2) values
      rw [hdrop] at hcut
      rw [← hcut, parted_append] at h
      obtain ⟨_, hrear, hcross⟩ := h
      have hfront : (values.take (values.length / 2)).filter before =
          values.take (values.length / 2) :=
        List.filter_eq_self.mpr fun a ha => hcross a ha middle List.mem_cons_self hm
      have hlen : (values.take (values.length / 2)).length = values.length / 2 := by
        rw [List.length_take]; omega
      have hsplit : values.filter before = values.take (values.length / 2) ++
          middle :: behind.filter before := by
        conv => lhs; rw [← hcut]
        rw [List.filter_append, hfront, List.filter_cons_of_pos hm]
      rw [ih (List.pairwise_cons.mp hrear).2, hsplit, List.length_append, hlen, List.length_cons]
      omega
  | case3 values middle behind hdrop hm ih =>
      have hcut := List.take_append_drop (values.length / 2) values
      rw [hdrop] at hcut
      rw [← hcut, parted_append] at h
      have hm' : before middle = false := by simpa using hm
      have hsplit : values.filter before = (values.take (values.length / 2)).filter before := by
        conv => lhs; rw [← hcut]
        rw [List.filter_append, List.filter_cons_of_neg hm, filter_eq_nil_of_parted h.2.1 hm',
          List.append_nil]
      rw [ih h.1, hsplit]

theorem filter_append_filter_of_parted {values : List α} (h : Parted before values) :
    values.filter before ++ values.filter (fun a => !before a) = values := by
  induction values with
  | nil => rfl
  | cons a rest ih =>
      have hrest := ih (List.pairwise_cons.mp h).2
      cases ha : before a with
      | true => simp [ha, hrest]
      | false =>
          have hnil := filter_eq_nil_of_parted h ha
          rw [hnil, List.nil_append] at hrest
          simp [ha, hnil, hrest]

/-- The predicate holds of a value when its place is in front of the number of values that it holds
of. -/
theorem before_iff_lt {values : List α} (h : Parted before values) {index : Nat} {a : α}
    (ha : values[index]? = some a) : before a = true ↔ index < (values.filter before).length := by
  rw [← filter_append_filter_of_parted h, List.getElem?_append] at ha
  split at ha
  · rename_i hlt
    exact iff_of_true (List.mem_filter.mp (List.mem_of_getElem? ha)).2 hlt
  · rename_i hle
    have hnot := (List.mem_filter.mp (List.mem_of_getElem? ha)).2
    exact iff_of_false (by simpa using hnot) hle

theorem take_bisect {values : List α} (h : Parted before values) :
    values.take (bisect before values) = values.filter before := by
  rw [bisect_eq_length_filter h]
  conv => lhs; rw [← filter_append_filter_of_parted h]
  rw [List.take_left']
  rw [filter_append_filter_of_parted h]

theorem drop_bisect {values : List α} (h : Parted before values) :
    values.drop (bisect before values) = values.filter fun a => !before a := by
  rw [bisect_eq_length_filter h]
  conv => lhs; rw [← filter_append_filter_of_parted h]
  rw [List.drop_left']
  rw [filter_append_filter_of_parted h]

end TracedText
