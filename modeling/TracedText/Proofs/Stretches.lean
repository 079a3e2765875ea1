import Mathlib.Data.List.TakeWhile

/-! # Stretches at the ends of a list

A scan goes over a list as long as a test holds.  What it goes over is known by what stands behind:
nothing, or a value that fails the test (`takeWhile_append`).  A scan from the rear stops where the
front does not end in a value that passes it (`cut_rear_iff`). -/

namespace TracedText

variable {α : Type} {p : α → Bool} {l front rear : List α} {place : ℕ}

/-- Two parts of a list are what stands on both sides of the place between them. -/
theorem take_drop_of_append (h : front ++ rear = l) (hplace : place = front.length) :
    l.take place = front ∧ l.drop place = rear := by
  subst h hplace
  exact ⟨List.take_left, List.drop_left⟩

theorem takeWhile_append (hfront : ∀ a ∈ front, p a = true) (hrear : ∀ a ∈ rear.head?, p a = false) :
    (front ++ rear).takeWhile p = front ∧ (front ++ rear).dropWhile p = rear := by
  rw [List.takeWhile_append_of_pos hfront, List.dropWhile_append_of_pos hfront]
  cases rear with
  | nil => exact ⟨List.append_nil front, rfl⟩
  | cons a rear =>
      have ha : ¬p a = true := by simp [hrear a rfl]
      rw [List.takeWhile_cons_of_neg ha, List.dropWhile_cons_of_neg ha, List.append_nil]
      exact ⟨rfl, rfl⟩

theorem head?_dropWhile : ∀ a ∈ (l.dropWhile p).head?, p a = false := by
  intro a ha
  have hnot := List.head?_dropWhile_not p l
  rw [Option.mem_def.mp ha] at hnot
  exact hnot

/-- A list is cut where its stretch at the rear starts when the rear passes the test and the front
does not end in a value that does. -/
theorem cut_rear_iff (hplace : place ≤ l.length) :
    (∀ a ∈ l.drop place, p a = true) ∧ (∀ a ∈ (l.take place).getLast?, p a = false) ↔
      place = l.length - (l.reverse.takeWhile p).length := by
  constructor
  · rintro ⟨hrear, hfront⟩
    have hreverse : (l.drop place).reverse ++ (l.take place).reverse = l.reverse := by
      rw [← List.reverse_append, List.take_append_drop]
    have hstretch : l.reverse.takeWhile p = (l.drop place).reverse := by
      rw [← hreverse]
      refine (takeWhile_append ?_ ?_).1
      · exact fun a ha => hrear a (List.mem_reverse.mp ha)
      · rwa [List.head?_reverse]
    rw [hstretch, List.length_reverse, List.length_drop]
    omega
  · intro hcut
    have hsplit : (l.reverse.dropWhile p).reverse ++ (l.reverse.takeWhile p).reverse = l := by
      rw [← List.reverse_append, List.takeWhile_append_dropWhile, List.reverse_reverse]
    have hlength : place = (l.reverse.dropWhile p).reverse.length := by
      have hsum := congrArg List.length hsplit
      rw [List.length_append, List.length_reverse, List.length_reverse] at hsum
      rw [List.length_reverse]
      omega
    obtain ⟨hfront, hrear⟩ := take_drop_of_append hsplit hlength
    rw [hrear, hfront, List.getLast?_reverse]
    exact ⟨fun a ha => List.mem_takeWhile_imp (List.mem_reverse.mp ha), head?_dropWhile⟩

end TracedText
