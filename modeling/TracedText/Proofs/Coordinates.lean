import Mathlib.Data.List.Basic
import Mathlib.Data.Prod.Lex
import TracedText.Text.Lines
import TracedText.Text.Units

/-! # Offsets as generated positions

An offset has a line, the last that starts at it or in front of it, and a column in code units
behind the start of this line.  Further offsets have greater positions (`lineColumn_lt`), and an
offset is found again from its position (`offsetOfUnits_lineColumn`).  Both rest on the starts of
the lines being in ascending order from zero on.  Lines start where others end (`mem_lineStarts`), so
offsets are on one line when no line ends between them (`lineIndex_eq_iff`). -/

namespace TracedText

/-! ### Code units -/

theorem unitWidth_pos (c : Char) : 0 < unitWidth c := by
  unfold unitWidth
  split <;> omega

namespace Text
variable {t : Text}

theorem length_le_units (t : Text) : t.length ≤ units t := by
  induction t with
  | nil => exact le_refl 0
  | cons c rest ih =>
      have := unitWidth_pos c
      rw [units_cons, List.length_cons]
      omega

theorem unitColumn_natCast (start offset : ℕ) :
    t.unitColumn start offset = units ((t.take offset).drop start) := by
  rw [unitColumn, slice_natCast]

theorem drop_take_append {start offset : ℕ} (h : start ≤ offset) :
    (t.take offset).drop start ++ t.drop offset = t.drop start := by
  conv => rhs; rw [← List.take_append_drop offset t]
  rcases le_total start t.length with hs | hs
  · rw [List.drop_append_of_le_length]
    rw [List.length_take]
    omega
  · rw [List.drop_eq_nil_of_le (le_trans hs h), List.append_nil, List.append_nil]

theorem unitColumn_lt {start offset other : ℕ} (h : start ≤ offset) (hlt : offset < other)
    (hother : other ≤ t.length) : t.unitColumn start offset < t.unitColumn start other := by
  have hcut := drop_take_append h (t := t.take other)
  rw [List.take_take, min_eq_left hlt.le] at hcut
  have hpos := length_le_units ((t.take other).drop offset)
  rw [List.length_drop, List.length_take] at hpos
  rw [unitColumn_natCast, unitColumn_natCast, ← hcut, units_append]
  omega

theorem advance_of_nonpos {width : ℤ} (h : width ≤ 0) (t : Text) : advance width t = 0 := by
  cases t with
  | nil => exact max_eq_right h
  | cons c rest => rw [advance, if_pos h]

theorem advance_units (s rest : Text) : advance (units s) (s ++ rest) = s.length := by
  induction s with
  | nil => exact advance_of_nonpos (le_refl 0) rest
  | cons c s ih =>
      have hpos := unitWidth_pos c
      have hsub : ((units (c :: s) : ℕ) : ℤ) - unitWidth c = units s := by
        rw [units_cons]
        omega
      rw [List.cons_append, advance, if_neg (by rw [units_cons]; omega), hsub, ih, List.length_cons]
      omega

theorem offsetOfUnits_eq (t : Text) (start : ℕ) (width : ℤ) :
    t.offsetOfUnits start width = .ok (start + advance width (t.drop start)) := by
  unfold offsetOfUnits
  split
  · rename_i hwidth
    rw [advance_of_nonpos hwidth, Int.add_zero]
  · rw [onward_natCast]
    rfl

/-- **A column leads back to its offset.** -/
theorem offsetOfUnits_unitColumn {start offset : ℕ} (h : start ≤ offset)
    (hoffset : offset ≤ t.length) :
    t.offsetOfUnits start (t.unitColumn start offset) = .ok offset := by
  have hlength : ((t.take offset).drop start).length = offset - start := by
    rw [List.length_drop, List.length_take]
    omega
  rw [unitColumn_natCast, offsetOfUnits_eq, ← drop_take_append (t := t) h,
    advance_units, hlength]
  congr 1
  omega

/-! ### Starts of lines -/

/-- A line ends in front of the offset: behind a line feed, or behind a carriage return that no line
feed follows. -/
def BreaksAt (t : Text) (offset : ℕ) : Prop :=
  1 ≤ offset ∧ (t[offset - 1]? = some '\n' ∨ t[offset - 1]? = some '\r' ∧ t[offset]? ≠ some '\n')

instance (t : Text) (offset : ℕ) : Decidable (t.BreaksAt offset) :=
  inferInstanceAs (Decidable (_ ∧ _))

theorem breaksAt_cons_one {c : Char} :
    BreaksAt (c :: t) 1 ↔ c = '\n' ∨ c = '\r' ∧ t.head? ≠ some '\n' := by
  simp [BreaksAt, List.head?_eq_getElem?]

theorem breaksAt_cons_add_two {c : Char} {offset : ℕ} :
    BreaksAt (c :: t) (offset + 2) ↔ t.BreaksAt (offset + 1) := by
  simp [BreaksAt]

theorem mem_startsFrom {n s : ℕ} :
    s ∈ startsFrom n t ↔ ∃ offset, s = n + offset ∧ t.BreaksAt offset := by
  fun_induction startsFrom n t with
  | case1 n => simp [BreaksAt]
  | case2 n rest ih =>
      rw [List.mem_cons, ih]
      constructor
      · rintro (rfl | ⟨offset, rfl, hoffset⟩)
        · exact ⟨2, rfl, breaksAt_cons_add_two.mpr (breaksAt_cons_one.mpr (Or.inl rfl))⟩
        · obtain ⟨k, rfl⟩ := Nat.exists_eq_add_of_le' hoffset.1
          exact ⟨k + 3, by omega, breaksAt_cons_add_two.mpr (breaksAt_cons_add_two.mpr hoffset)⟩
      · rintro ⟨_ | _ | _ | k, rfl, hoffset⟩
        · exact absurd hoffset.1 (by decide)
        · exact absurd (breaksAt_cons_one.mp hoffset) (by simp)
        · exact Or.inl rfl
        · exact Or.inr ⟨k + 1, by omega,
            breaksAt_cons_add_two.mp (breaksAt_cons_add_two.mp hoffset)⟩
  | case3 n c rest hpair hc ih =>
      have hfirst : BreaksAt (c :: rest) 1 := by
        rw [breaksAt_cons_one]
        rcases Bool.or_eq_true_iff.mp hc with hreturn | hfeed
        · refine Or.inr ⟨beq_iff_eq.mp hreturn, fun hhead => ?_⟩
          obtain ⟨tail, htail⟩ := List.head?_eq_some_iff.mp hhead
          exact hpair tail (beq_iff_eq.mp hreturn) htail
        · exact Or.inl (beq_iff_eq.mp hfeed)
      rw [List.mem_cons, ih]
      constructor
      · rintro (rfl | ⟨offset, rfl, hoffset⟩)
        · exact ⟨1, rfl, hfirst⟩
        · obtain ⟨k, rfl⟩ := Nat.exists_eq_add_of_le' hoffset.1
          exact ⟨k + 2, by omega, breaksAt_cons_add_two.mpr hoffset⟩
      · rintro ⟨_ | _ | k, rfl, hoffset⟩
        · exact absurd hoffset.1 (by decide)
        · exact Or.inl rfl
        · exact Or.inr ⟨k + 1, by omega, breaksAt_cons_add_two.mp hoffset⟩
  | case4 n c rest hpair hc ih =>
      rw [ih]
      constructor
      · rintro ⟨offset, rfl, hoffset⟩
        obtain ⟨k, rfl⟩ := Nat.exists_eq_add_of_le' hoffset.1
        exact ⟨k + 2, by omega, breaksAt_cons_add_two.mpr hoffset⟩
      · rintro ⟨_ | _ | k, rfl, hoffset⟩
        · exact absurd hoffset.1 (by decide)
        · refine absurd ?_ hc
          rcases breaksAt_cons_one.mp hoffset with rfl | ⟨rfl, _⟩
          · rfl
          · rfl
        · exact ⟨k + 1, by omega, breaksAt_cons_add_two.mp hoffset⟩

theorem startsFrom_bounds (n : ℕ) (t : Text) : ∀ s ∈ startsFrom n t, n < s ∧ s ≤ n + t.length := by
  fun_induction startsFrom n t with
  | case1 n => nofun
  | case2 n rest ih =>
      intro s hs
      simp only [List.length_cons]
      rcases List.mem_cons.mp hs with rfl | hs
      · omega
      · have := ih s hs
        omega
  | case3 n c rest _ _ ih =>
      intro s hs
      simp only [List.length_cons]
      rcases List.mem_cons.mp hs with rfl | hs
      · omega
      · have := ih s hs
        omega
  | case4 n c rest _ _ ih =>
      intro s hs
      simp only [List.length_cons]
      have := ih s hs
      omega

theorem startsFrom_pairwise (n : ℕ) (t : Text) : (startsFrom n t).Pairwise (· < ·) := by
  fun_induction startsFrom n t with
  | case1 n => exact .nil
  | case2 n rest ih => exact .cons (fun s hs => (startsFrom_bounds _ _ s hs).1) ih
  | case3 n c rest _ _ ih => exact .cons (fun s hs => (startsFrom_bounds _ _ s hs).1) ih
  | case4 n c rest _ _ ih => exact ih

theorem lineStarts_pairwise (t : Text) : t.lineStarts.Pairwise (· < ·) :=
  .cons (fun s hs => (startsFrom_bounds 0 t s hs).1) (startsFrom_pairwise 0 t)

theorem lineStarts_parted (t : Text) (offset : ℕ) :
    Parted (fun s => decide (s ≤ offset)) t.lineStarts :=
  Parted.of_pairwise t.lineStarts_pairwise fun _ _ hsu hu =>
    decide_eq_true (le_trans hsu.le (of_decide_eq_true hu))

/-- No line ends between an offset and a further one. -/
def SameLine (t : Text) (offset other : ℕ) : Prop :=
  ∀ s ≤ other, offset < s → ¬t.BreaksAt s

instance (t : Text) (offset other : ℕ) : Decidable (t.SameLine offset other) :=
  inferInstanceAs (Decidable (∀ s ≤ other, offset < s → ¬t.BreaksAt s))

theorem mem_lineStarts {s : ℕ} : s ∈ t.lineStarts ↔ s = 0 ∨ t.BreaksAt s := by
  simp [lineStarts, mem_startsFrom]

theorem le_length_of_mem_lineStarts {s : ℕ} (h : s ∈ t.lineStarts) : s ≤ t.length := by
  rcases List.mem_cons.mp h with rfl | h
  · exact Nat.zero_le _
  · have := (startsFrom_bounds 0 t s h).2
    omega

end Text

/-! ### Lines of offsets -/

namespace LineTable
variable (t : Text) (numbering : Numbering) (offset : ℕ)

theorem startsUpTo_ofText :
    (ofText t numbering).startsUpTo offset = t.lineStarts.filter fun s => s ≤ offset :=
  take_bisect (t.lineStarts_parted offset)

theorem startsUpTo_ne_nil : (ofText t numbering).startsUpTo offset ≠ [] := by
  have hzero : 0 ∈ t.lineStarts.filter fun s => s ≤ offset :=
    List.mem_filter.mpr ⟨List.mem_cons_self, decide_eq_true (Nat.zero_le offset)⟩
  rw [startsUpTo_ofText]
  exact List.ne_nil_of_mem hzero

theorem lineStart_mem :
    (ofText t numbering).lineStart offset ∈ t.lineStarts.filter fun s => s ≤ offset := by
  have hne := startsUpTo_ne_nil t numbering offset
  rw [← startsUpTo_ofText t numbering offset]
  unfold lineStart
  rw [List.getLastD_eq_getLast?, List.getLast?_eq_some_getLast hne]
  exact List.getLast_mem hne

theorem lineStart_le : (ofText t numbering).lineStart offset ≤ offset :=
  of_decide_eq_true (List.mem_filter.mp (lineStart_mem t numbering offset)).2

theorem getElem?_lineIndex :
    t.lineStarts[(ofText t numbering).lineIndex offset]? =
      some ((ofText t numbering).lineStart offset) := by
  have hne := startsUpTo_ne_nil t numbering offset
  have hlast : (ofText t numbering).startsUpTo offset =
      t.lineStarts.take (bisect (fun start => start ≤ offset) t.lineStarts) := rfl
  unfold lineStart lineIndex
  rw [List.getLastD_eq_getLast?, List.getLast?_eq_getElem?]
  rw [hlast] at hne ⊢
  have hpos := List.length_pos_iff.mpr hne
  have hlt : (t.lineStarts.take (bisect (fun start => start ≤ offset) t.lineStarts)).length - 1 <
      bisect (fun start => start ≤ offset) t.lineStarts := by
    have := List.length_take_le (bisect (fun start => start ≤ offset) t.lineStarts) t.lineStarts
    omega
  rw [List.getElem?_take_of_lt hlt, List.getElem?_eq_getElem, Option.getD_some]
  rw [List.length_take] at hpos ⊢
  omega

variable {offset} {other : ℕ}

theorem lineStart_congr
    (h : (ofText t numbering).lineIndex offset = (ofText t numbering).lineIndex other) :
    (ofText t numbering).lineStart offset = (ofText t numbering).lineStart other := by
  have hstart := getElem?_lineIndex t numbering offset
  rw [h, getElem?_lineIndex t numbering other] at hstart
  exact (Option.some.inj hstart).symm

theorem lineIndex_mono (h : offset ≤ other) :
    (ofText t numbering).lineIndex offset ≤ (ofText t numbering).lineIndex other := by
  unfold lineIndex
  rw [startsUpTo_ofText, startsUpTo_ofText, ← List.countP_eq_length_filter,
    ← List.countP_eq_length_filter]
  refine Nat.sub_le_sub_right (List.countP_mono_left ?_) 1
  intro s _ hs
  exact decide_eq_true (le_trans (of_decide_eq_true hs) h)

/-- Two offsets have one line exactly when no line ends between them. -/
theorem lineIndex_eq_iff (h : offset ≤ other) :
    (ofText t numbering).lineIndex offset = (ofText t numbering).lineIndex other ↔
      t.SameLine offset other := by
  have hfront : ((ofText t numbering).startsUpTo other).filter (fun s => s ≤ offset) =
      (ofText t numbering).startsUpTo offset := by
    rw [startsUpTo_ofText, startsUpTo_ofText, List.filter_filter]
    refine List.filter_congr fun s _ => ?_
    rw [Bool.eq_iff_iff, Bool.and_eq_true, decide_eq_true_iff, decide_eq_true_iff]
    omega
  have hpos := List.length_pos_iff.mpr (startsUpTo_ne_nil t numbering offset)
  have hle : ((ofText t numbering).startsUpTo offset).length ≤
      ((ofText t numbering).startsUpTo other).length := by
    rw [← hfront]
    exact List.length_filter_le _ _
  have hlt : ((ofText t numbering).startsUpTo offset).length <
      ((ofText t numbering).startsUpTo other).length ↔ ∃ s ≤ other, offset < s ∧ t.BreaksAt s := by
    rw [← hfront, List.length_filter_lt_length_iff_exists, startsUpTo_ofText]
    simp only [List.mem_filter, Text.mem_lineStarts, decide_eq_true_iff, not_le]
    constructor
    · rintro ⟨s, ⟨hs, hother⟩, hoffset⟩
      exact ⟨s, hother, hoffset, hs.resolve_left (by omega)⟩
    · rintro ⟨s, hother, hoffset, hs⟩
      exact ⟨s, ⟨Or.inr hs, hother⟩, hoffset⟩
  unfold lineIndex
  constructor
  · intro heq s hs hoffset hbreaks
    have := hlt.mpr ⟨s, hs, hoffset, hbreaks⟩
    omega
  · intro hsame
    have : ¬∃ s ≤ other, offset < s ∧ t.BreaksAt s :=
      fun ⟨s, hs, hoffset, hbreaks⟩ => hsame s hs hoffset hbreaks
    have := mt hlt.mp this
    omega

/-! ### Positions of offsets -/

/-- The line of an offset, counted from one, and its column in code units. -/
def lineColumn (t : Text) (offset : ℕ) : ℕ ×ₗ ℕ :=
  toLex ((ofText t .oneBasedLines).lineIndex offset + 1,
    t.unitColumn ((ofText t .oneBasedLines).lineStart offset) offset)

/-- **A further offset has a greater position.** -/
theorem lineColumn_lt (h : offset < other) (hother : other ≤ t.length) :
    lineColumn t offset < lineColumn t other := by
  unfold lineColumn
  rw [Prod.Lex.toLex_lt_toLex]
  rcases lt_or_eq_of_le (lineIndex_mono t .oneBasedLines h.le) with hlt | heq
  · exact Or.inl (Nat.add_lt_add_right hlt 1)
  · refine Or.inr ⟨congrArg (· + 1) heq, ?_⟩
    rw [← lineStart_congr t .oneBasedLines heq]
    exact Text.unitColumn_lt (lineStart_le t .oneBasedLines offset) h hother

theorem lineColumn_le (h : offset ≤ other) (hother : other ≤ t.length) :
    lineColumn t offset ≤ lineColumn t other := by
  rcases lt_or_eq_of_le h with hlt | rfl
  · exact (lineColumn_lt t hlt hother).le
  · exact le_refl _

/-- **Positions are in the order of their offsets.** -/
theorem lineColumn_le_iff (h : offset ≤ t.length) (hother : other ≤ t.length) :
    lineColumn t offset ≤ lineColumn t other ↔ offset ≤ other := by
  refine ⟨fun hle => ?_, fun hle => lineColumn_le t hle hother⟩
  by_contra hlt
  exact absurd (lineColumn_lt t (not_le.mp hlt) h) (not_lt.mpr hle)

/-- An offset is on the line of another, in no column behind it, exactly when it is not behind the
other and no line ends between them. -/
theorem column_le_iff (h : offset ≤ t.length) (hother : other ≤ t.length) :
    (ofText t .oneBasedLines).lineIndex offset = (ofText t .oneBasedLines).lineIndex other ∧
        t.unitColumn ((ofText t .oneBasedLines).lineStart offset) offset ≤
          t.unitColumn ((ofText t .oneBasedLines).lineStart other) other ↔
      offset ≤ other ∧ t.SameLine offset other := by
  have hplace := lineColumn_le_iff t h hother
  simp only [lineColumn, Prod.Lex.toLex_le_toLex] at hplace
  constructor
  · rintro ⟨hline, hcolumn⟩
    have hle := hplace.mp (Or.inr ⟨congrArg (· + 1) hline, hcolumn⟩)
    exact ⟨hle, (lineIndex_eq_iff t .oneBasedLines hle).mp hline⟩
  · rintro ⟨hle, hsame⟩
    have hline := (lineIndex_eq_iff t .oneBasedLines hle).mpr hsame
    rcases hplace.mpr hle with hlt | ⟨_, hcolumn⟩
    · exact absurd hline (by omega)
    · exact ⟨hline, hcolumn⟩

variable {t} in
theorem offsetOf_of_getElem? {index start : ℕ} (h : t.lineStarts[index]? = some start)
    (column : ℤ) :
    (ofText t numbering).offsetOf (index + numbering.lineBase) column =
      min (start + (column - numbering.columnBase)).toNat t.length := by
  have hindex : (index : ℤ) + numbering.lineBase - numbering.lineBase = index := by omega
  have hnonneg : ¬((index : ℤ) < 0) := by omega
  have hstart : (ofText t numbering).starts[index]? = some start := h
  have hnumbering : (ofText t numbering).numbering = numbering := rfl
  unfold offsetOf
  simp only [hnumbering, hindex, hnonneg, if_false, Int.toNat_natCast, hstart]
  rfl

theorem offsetOf_of_start {index start : ℕ} (h : t.lineStarts[index]? = some start) :
    (ofText t .oneBasedLines).offsetOf (index + 1 : ℕ) 0 = start := by
  have hle := Text.le_length_of_mem_lineStarts (List.mem_of_getElem? h)
  have hoffset := offsetOf_of_getElem? .oneBasedLines h 0
  have hcolumn : (start + (0 - Numbering.oneBasedLines.columnBase) : ℤ).toNat = start := by
    show ((start : ℤ) + (0 - 0)).toNat = start
    omega
  rwa [hcolumn, min_eq_left hle] at hoffset

/-- **An offset is found again from its position.** -/
theorem offsetOfUnits_lineColumn (h : offset ≤ t.length) :
    t.offsetOfUnits ((ofText t .oneBasedLines).offsetOf (ofLex (lineColumn t offset)).1 0)
      (ofLex (lineColumn t offset)).2 = .ok offset := by
  simp only [lineColumn, ofLex_toLex]
  rw [offsetOf_of_start t (getElem?_lineIndex t .oneBasedLines offset)]
  exact Text.offsetOfUnits_unitColumn (lineStart_le t .oneBasedLines offset) h

end LineTable

end TracedText
