import Mathlib.Data.List.Sort
import TracedText.Proofs.Coordinates
import TracedText.Proofs.Extents

/-! # Lines of joined texts

Two texts that are joined keep their lines, but for the one that starts at the seam: a carriage return
in front of the seam and a line feed behind it are one terminator, and no line starts between them
(`lineStarts_append`).  `lineStarts_exact` says what the table of lines of a text holds, and what the
tables of two texts make of it when they are joined.

To take a part out of a text is to join what stands on both sides of it, so the lines in front of the
part and behind it stay as they were (`lineStarts_cut`), in particular when the part is a range that
was widened to whole lines (`lineStarts_lineExtent`). -/

namespace TracedText.Text
variable {s t rest : Text} {n : ℕ}

/-- A text that ends in a carriage return is in front of one that starts with a line feed. -/
def Fuses (s rest : Text) : Prop := s.getLast? = some '\r' ∧ rest.head? = some '\n'

instance (s rest : Text) : Decidable (s.Fuses rest) := inferInstanceAs (Decidable (_ ∧ _))

/-! ### Seams -/

/-- A text behind another moves none of its lines, except that it takes the one at the seam when both
fuse. -/
theorem breaksAt_append_left (hn : n ≤ s.length) :
    BreaksAt (s ++ rest) n ↔ s.BreaksAt n ∧ ¬(n = s.length ∧ s.Fuses rest) := by
  rcases Nat.eq_zero_or_pos n with rfl | hpos
  · simp [BreaksAt]
  have hbefore : (s ++ rest)[n - 1]? = s[n - 1]? := List.getElem?_append_left (by omega)
  rcases hn.lt_or_eq with hlt | rfl
  · have hat : (s ++ rest)[n]? = s[n]? := List.getElem?_append_left hlt
    rw [BreaksAt, BreaksAt, hbefore, hat]
    exact (and_iff_left fun h => hlt.ne h.1).symm
  · have hat : (s ++ rest)[s.length]? = rest.head? := by
      rw [List.getElem?_append_right (le_refl _), Nat.sub_self, List.head?_eq_getElem?]
    rw [BreaksAt, BreaksAt, Fuses, hbefore, hat, ← List.getLast?_eq_getElem?]
    grind

theorem breaksAt_append_right (s rest : Text) (hn : 1 ≤ n) :
    BreaksAt (s ++ rest) (s.length + n) ↔ rest.BreaksAt n := by
  have hbefore : (s ++ rest)[s.length + n - 1]? = rest[n - 1]? := by
    rw [Nat.add_sub_assoc hn, List.getElem?_append_right (Nat.le_add_right _ _),
      Nat.add_sub_cancel_left]
  have hat : (s ++ rest)[s.length + n]? = rest[n]? := by
    rw [List.getElem?_append_right (Nat.le_add_right _ _), Nat.add_sub_cancel_left]
  rw [BreaksAt, BreaksAt, hbefore, hat]
  exact and_congr_left fun _ => iff_of_true (by omega) hn

theorem breaksAt_append : BreaksAt (s ++ rest) n ↔
    s.BreaksAt n ∧ ¬(n = s.length ∧ s.Fuses rest) ∨
      ∃ offset, n = s.length + offset ∧ rest.BreaksAt offset := by
  rcases Nat.lt_or_ge s.length n with hlt | hle
  · obtain ⟨k, rfl⟩ := Nat.exists_eq_add_of_lt hlt
    have hfront : ¬s.BreaksAt (s.length + k + 1) := fun h =>
      absurd (le_length_of_mem_lineStarts (mem_lineStarts.mpr (Or.inr h))) (by omega)
    rw [or_iff_right fun h => hfront h.1, Nat.add_assoc,
      breaksAt_append_right s rest (Nat.le_add_left 1 k)]
    constructor
    · exact fun h => ⟨k + 1, rfl, h⟩
    · rintro ⟨offset, hoffset, h⟩
      obtain rfl : k + 1 = offset := Nat.add_left_cancel hoffset
      exact h
  · have hbehind : ¬∃ offset, n = s.length + offset ∧ rest.BreaksAt offset := by
      rintro ⟨offset, rfl, h⟩
      have := h.1
      omega
    rw [breaksAt_append_left hle, or_iff_left hbehind]

/-- **The lines of joined texts** start where those of the first do and where those of the second do
behind it, but none starts at the seam when the texts fuse. -/
theorem lineStarts_append (s rest : Text) :
    (s ++ rest).lineStarts =
      (s.lineStarts.filter fun n => ¬(n = s.length ∧ s.Fuses rest)) ++ startsFrom s.length rest := by
  have hsorted : ((s.lineStarts.filter fun n => ¬(n = s.length ∧ s.Fuses rest)) ++
      startsFrom s.length rest).Pairwise (· < ·) := by
    refine List.pairwise_append.mpr
      ⟨s.lineStarts_pairwise.filter _, startsFrom_pairwise _ _, fun n hn m hm => ?_⟩
    have hle := le_length_of_mem_lineStarts (List.mem_filter.mp hn).1
    have hlt := (startsFrom_bounds _ _ m hm).1
    omega
  refine (lineStarts_pairwise _).eq_of_mem_iff hsorted fun n => ?_
  have hzero : n = 0 → ¬(n = s.length ∧ s.Fuses rest) := by
    rintro rfl ⟨hnil, hfuses⟩
    rw [List.length_eq_zero_iff.mp hnil.symm] at hfuses
    exact absurd hfuses.1 (by decide)
  rw [mem_lineStarts, List.mem_append, List.mem_filter, mem_lineStarts, decide_eq_true_iff,
    mem_startsFrom, breaksAt_append, ← or_assoc, or_and_right, and_iff_left_of_imp hzero]

/-! ### Parts of a text -/

theorem startsFrom_add (n count : ℕ) (t : Text) :
    startsFrom (n + count) t = (startsFrom n t).map (· + count) := by
  fun_induction startsFrom n t with
  | case1 n => rfl
  | case2 n rest ih => rw [startsFrom, Nat.add_right_comm, ih, List.map_cons]
  | case3 n c rest hpair hc ih =>
      rw [startsFrom, if_pos hc, Nat.add_right_comm, ih, List.map_cons]
      exact hpair
  | case4 n c rest hpair hc ih =>
      rw [startsFrom, if_neg hc, Nat.add_right_comm, ih]
      exact hpair

/-- The lines of a text that start up to a place are those of what stands in front of it, unless the
place parts a pair of terminators, and the others are those of what stands behind. -/
theorem lineStarts_split (hn : n ≤ t.length) :
    (t.lineStarts.filter fun s => s ≤ n) =
        (lineStarts (t.take n)).filter (fun s => ¬(s = n ∧ Fuses (t.take n) (t.drop n))) ∧
      (t.lineStarts.filter fun s => n < s) = startsFrom n (t.drop n) := by
  have hlength : (t.take n).length = n := List.length_take_of_le hn
  have hlines := lineStarts_append (t.take n) (t.drop n)
  rw [List.take_append_drop, hlength] at hlines
  set front := (lineStarts (t.take n)).filter fun s => ¬(s = n ∧ Fuses (t.take n) (t.drop n))
  have hfront : ∀ s ∈ front, s ≤ n := fun s hs =>
    (le_length_of_mem_lineStarts (List.mem_filter.mp hs).1).trans_eq hlength
  have hbehind : ∀ s ∈ startsFrom n (t.drop n), n < s := fun s hs => (startsFrom_bounds _ _ s hs).1
  rw [hlines, List.filter_append, List.filter_append]
  constructor
  · have hnone : (startsFrom n (t.drop n)).filter (fun s => s ≤ n) = [] :=
      List.filter_eq_nil_iff.mpr fun s hs => by simpa using hbehind s hs
    rw [hnone, List.append_nil, List.filter_eq_self.mpr fun s hs => decide_eq_true (hfront s hs)]
  · have hnone : front.filter (fun s => n < s) = [] :=
      List.filter_eq_nil_iff.mpr fun s hs => by simpa using hfront s hs
    rw [hnone, List.nil_append, List.filter_eq_self.mpr fun s hs => decide_eq_true (hbehind s hs)]

theorem lineStarts_take (hn : n ∈ t.lineStarts) :
    lineStarts (t.take n) = t.lineStarts.filter fun s => s ≤ n := by
  have hfront := (lineStarts_split (le_length_of_mem_lineStarts hn)).1
  have hmem : n ∈ t.lineStarts.filter fun s => s ≤ n :=
    List.mem_filter.mpr ⟨hn, decide_eq_true (le_refl n)⟩
  rw [hfront] at hmem ⊢
  -- A line starts at this place, so it does not part a pair of terminators.
  have hapart := of_decide_eq_true (List.mem_filter.mp hmem).2
  exact (List.filter_eq_self.mpr fun s _ => decide_eq_true (mt (And.imp_left fun _ => rfl) hapart)).symm

/-! ### Tables of lines -/

theorem startsFrom_eq_map (n : ℕ) (t : Text) :
    startsFrom n t = (t.lineStarts.filter (· ≠ 0)).map (n + ·) := by
  have hothers : t.lineStarts.filter (· ≠ 0) = startsFrom 0 t := by
    rw [lineStarts, List.filter_cons_of_neg (by simp), List.filter_eq_self]
    exact fun start hstart => decide_eq_true (startsFrom_bounds 0 t start hstart).1.ne'
  have hmoved := startsFrom_add 0 n t
  rw [Nat.zero_add] at hmoved
  rw [hothers, hmoved]
  exact List.map_congr_left fun start _ => Nat.add_comm start n

theorem breaksAt_length (h : s.getLast? = some '\r') : s.BreaksAt s.length := by
  have hreturn : s[s.length - 1]? = some '\r' := List.getLast?_eq_getElem?.symm.trans h
  obtain ⟨hlt, _⟩ := List.getElem?_eq_some_iff.mp hreturn
  exact ⟨by omega, Or.inr ⟨hreturn, by simp⟩⟩

/-- The table of two texts misses a line at the end of the first exactly when they fuse. -/
theorem fuses_iff_notMem (s rest : Text) :
    s.Fuses rest ↔ s.length ∈ s.lineStarts ∧ s.length ∉ (s ++ rest).lineStarts := by
  have hbehind : s.length ∉ startsFrom s.length rest := fun hmem =>
    absurd (startsFrom_bounds _ _ _ hmem).1 (lt_irrefl _)
  rw [lineStarts_append, List.mem_append, or_iff_left hbehind, List.mem_filter, decide_eq_true_iff]
  constructor
  · intro h
    exact ⟨mem_lineStarts.mpr (Or.inr (breaksAt_length h.1)), fun hkept => hkept.2 ⟨rfl, h⟩⟩
  · rintro ⟨hmem, hmissing⟩
    by_contra h
    exact hmissing ⟨hmem, fun hfuses => h hfuses.2⟩

/-- The lines of a text that those of a longer one begin with. -/
theorem filter_lineStarts_eq (s rest : Text) :
    (s.lineStarts.filter fun n => ¬(n = s.length ∧ s.Fuses rest)) =
      if s.Fuses rest then s.lineStarts.erase s.length else s.lineStarts := by
  split
  · rename_i h
    have hnodup : s.lineStarts.Nodup := s.lineStarts_pairwise.imp fun hlt => hlt.ne
    rw [hnodup.erase_eq_filter]
    refine List.filter_congr fun n _ => ?_
    rw [Bool.eq_iff_iff, decide_eq_true_iff, bne_iff_ne, and_iff_left h]
  · rename_i h
    exact List.filter_eq_self.mpr fun n _ => decide_eq_true fun hn => h hn.2

/-- **The table of lines of a text.**  It starts with zero, ascends and stays in the text, and a line
starts behind a character exactly when this is a line feed, or a carriage return that no line feed
follows.  The table of two texts that are joined is that of the first, without the end of it exactly
when both fuse there, and then that of the second but for its first line, moved behind the first. -/
theorem lineStarts_exact (t : Text) :
    t.lineStarts.Pairwise (· < ·) ∧ t.lineStarts.head? = some 0 ∧
      (∀ start ∈ t.lineStarts, start ≤ t.length) ∧
      (∀ n, n + 1 ∈ t.lineStarts ↔
        t[n]? = some '\n' ∨ t[n]? = some '\r' ∧ ¬(n + 1 < t.length ∧ t[n + 1]? = some '\n')) ∧
      ∀ rest : Text,
        (t ++ rest).lineStarts =
          (if t.Fuses rest then t.lineStarts.erase t.length else t.lineStarts) ++
            (rest.lineStarts.filter (· ≠ 0)).map (t.length + ·) ∧
        (t.Fuses rest ↔ t.length ∈ t.lineStarts ∧ t.length ∉ (t ++ rest).lineStarts) := by
  refine ⟨t.lineStarts_pairwise, rfl, fun start => le_length_of_mem_lineStarts, fun n => ?_,
    fun rest => ⟨?_, fuses_iff_notMem t rest⟩⟩
  · have hinside : t[n + 1]? = some '\n' → n + 1 < t.length := fun hfeed =>
      (List.getElem?_eq_some_iff.mp hfeed).1
    rw [mem_lineStarts, or_iff_right (Nat.succ_ne_zero n), BreaksAt, Nat.add_sub_cancel,
      and_iff_right (Nat.le_add_left 1 n), and_iff_right_of_imp hinside]
  · rw [lineStarts_append, filter_lineStarts_eq, startsFrom_eq_map]

/-- A pair of terminators and a carriage return. -/
def returning : Text := ['a', '\r', '\n', '\r']

theorem lineStarts_exact_returning :
    4 ∈ returning.lineStarts ∧ 4 ≤ returning.length ∧ 1 + 1 ∉ returning.lineStarts ∧
      returning.lineStarts = [0, 3, 4] ∧ lineStarts ['\n', '\r', 'b'] = [0, 1, 2] ∧
      lineStarts (returning ++ ['\n', '\r', 'b']) = [0, 3, 5, 6] := by
  have hmem : 4 ∈ returning.lineStarts := by decide
  obtain ⟨-, -, hinside, hstarts, hjoined⟩ := lineStarts_exact returning
  refine ⟨hmem, hinside 4 hmem, mt (hstarts 1).mp (by decide), by decide, by decide, ?_⟩
  exact (hjoined ['\n', '\r', 'b']).1

/-! ### Parts taken out -/

theorem fuses_take_drop_iff {first : ℕ} (hfirst : first ≤ t.length) (last : ℕ) :
    Fuses (t.take first) (t.drop last) ↔ 0 < first ∧ last < t.length ∧
      t[first - 1]? = some '\r' ∧ t[last]? = some '\n' := by
  have hlength : (t.take first).length = first := List.length_take_of_le hfirst
  rw [Fuses, List.head?_drop, List.getLast?_eq_getElem?, hlength]
  constructor
  · rintro ⟨hreturn, hfeed⟩
    have hpos := (List.getElem?_eq_some_iff.mp hreturn).1
    rw [hlength] at hpos
    rw [List.getElem?_take_of_lt hpos] at hreturn
    exact ⟨by omega, (List.getElem?_eq_some_iff.mp hfeed).1, hreturn, hfeed⟩
  · rintro ⟨hpos, -, hreturn, hfeed⟩
    rw [List.getElem?_take_of_lt (by omega)]
    exact ⟨hreturn, hfeed⟩

/-- **A part that starts with a line is taken out**: the lines in front of it stay, and those behind it
move up.  What stands behind takes the place of the line that the part starts with, unless it fuses
with what stands in front. -/
theorem lineStarts_cut {first last : ℕ} (hle : first ≤ last) (hlast : last ≤ t.length)
    (hfirst : first ∈ t.lineStarts) :
    lineStarts (t.take first ++ t.drop last) =
      (t.lineStarts.filter fun s =>
        s ≤ first ∧ ¬(s = first ∧ Fuses (t.take first) (t.drop last))) ++
      (t.lineStarts.filter fun s => last < s).map (· - (last - first)) := by
  have hlength : (t.take first).length = first := List.length_take_of_le (hle.trans hlast)
  obtain ⟨count, rfl⟩ := Nat.exists_eq_add_of_le hle
  have hback : ∀ starts : List ℕ, (starts.map (· + count)).map (· - count) = starts := by
    intro starts
    simp [Function.comp_def]
  rw [lineStarts_append, hlength, lineStarts_take hfirst, List.filter_filter,
    (lineStarts_split hlast).2, Nat.add_sub_cancel_left, startsFrom_add, hback]
  congr 1
  refine List.filter_congr fun s _ => ?_
  rw [Bool.decide_and, Bool.and_comm]

/-- **Deleting a widened range leaves the other lines as they were.**  A range is widened to `first` and
`last`.  When a line starts at `first`, the text without the widened range has the lines that start up
to it, and the ones that start behind `last`, moved up.  Only the line that starts at `first` itself is
missing, and exactly when a carriage return in front of the range and a line feed behind it come to
stand together.  Whether a line starts at `last` does not matter. -/
theorem lineStarts_lineExtent {start stop : ℕ} (h : start ≤ stop) (hstop : stop ≤ t.length) :
    ∃ first last : ℕ, t.lineExtent start stop = .ok ((first : ℤ), (last : ℤ)) ∧
      first ≤ start ∧ stop ≤ last ∧ last ≤ t.length ∧
      (first ∈ t.lineStarts → lineStarts (t.take first ++ t.drop last) =
        (t.lineStarts.filter fun s => s ≤ first ∧ ¬(s = first ∧ 0 < first ∧ last < t.length ∧
          t[first - 1]? = some '\r' ∧ t[last]? = some '\n')) ++
        (t.lineStarts.filter fun s => last < s).map (· - (last - first))) := by
  have hw := widened (h.trans hstop) hstop
  have hle := (hw.first_le.trans h).trans hw.le_last
  refine ⟨_, _, lineExtent_natCast (h.trans hstop) stop, hw.first_le, hw.le_last, hw.last_le, ?_⟩
  intro hfirst
  simp only [← fuses_take_drop_iff (hle.trans hw.last_le)]
  exact lineStarts_cut hle hw.last_le hfirst

/-- An indented line between one that ends in a carriage return and one that has a line feed only. -/
def fusing : Text := ['a', '\r', ' ', 'b', ';', '\n', '\n', 'c']

theorem lineStarts_lineExtent_fusing :
    3 ≤ 5 ∧ 5 ≤ fusing.length ∧ fusing.lineExtent 3 5 = .ok (2, 6) ∧
      fusing.lineStarts = [0, 2, 6, 7] ∧ 2 ∈ fusing.lineStarts ∧ 6 ∈ fusing.lineStarts ∧
      lineStarts (fusing.take 2 ++ fusing.drop 6) = [0, 3] := by
  have hle : 3 ≤ 5 := by decide
  have hstop : 5 ≤ fusing.length := by decide
  have hfirst : 2 ∈ fusing.lineStarts := by decide
  have hvalue : fusing.lineExtent 3 5 = .ok (2, 6) := by decide
  obtain ⟨first, last, hextent, -, -, -, hlines⟩ := lineStarts_lineExtent hle hstop
  obtain ⟨hf, hl⟩ := Prod.mk.inj (Except.ok.inj (hextent.symm.trans hvalue))
  obtain rfl : first = 2 := Int.ofNat_inj.mp hf
  obtain rfl : last = 6 := Int.ofNat_inj.mp hl
  exact ⟨hle, hstop, hvalue, by decide, hfirst, by decide, hlines hfirst⟩

end TracedText.Text
