import Mathlib.Algebra.Order.Group.Int
import TracedText.Proofs.Coordinates

/-! # Offsets and positions

A text falls into its lines (`Text.lines`), and each of them starts behind the characters of those in
front of it (`lineStarts_eq`).  A line table turns an offset into a position and a position into an
offset, in any numbering, and the two are inverse to each other as far as they can be
(`position_offset_inverse`): every offset of the text is found again, and so is every position that
the text has. -/

namespace TracedText

namespace Text

/-- The lines of a text, each with its terminator. -/
def lines : Text → List Text
  | [] => [[]]
  | '\r' :: '\n' :: rest => ['\r', '\n'] :: lines rest
  | c :: rest =>
    if isTerminator c then [c] :: lines rest
    else
      match lines rest with
      | [] => [[c]]
      | line :: others => (c :: line) :: others

/-- The number of characters in front of a line, lines counted from zero. -/
def beforeLine (t : Text) (index : ℕ) : ℕ := (t.lines.take index).flatten.length

/-- The text has a position, lines and columns counted from zero: there is a character in this column
of the line, or it is the end of the last line. -/
def HasPosition (t : Text) (line column : ℤ) : Prop :=
  ∃ (index : ℕ) (content : Text), line = index ∧ t.lines[index]? = some content ∧ 0 ≤ column ∧
    (column < content.length ∨ index + 1 = t.lines.length ∧ column ≤ content.length)

theorem lines_ne_nil (t : Text) : t.lines ≠ [] := by
  fun_induction lines t <;> exact List.cons_ne_nil _ _

theorem flatten_lines (t : Text) : t.lines.flatten = t := by
  fun_induction lines t with
  | case1 => rfl
  | case2 rest ih => rw [List.flatten_cons, ih]; rfl
  | case3 c rest _ _ ih => rw [List.flatten_cons, ih, List.singleton_append]
  | case4 c rest _ _ hrest ih => exact absurd hrest (lines_ne_nil rest)
  | case5 c rest _ _ line others hrest ih =>
      rw [hrest, List.flatten_cons] at ih
      rw [List.flatten_cons, List.cons_append, ih]

/-- The numbers of characters in front of the parts of a text, counted from `n`: of the first part, and
of the others, which it is in front of. -/
theorem map_range_beforeParts (n : ℕ) (part : Text) (others : List Text) :
    (List.range (part :: others).length).map
        (fun index => n + ((part :: others).take index).flatten.length) =
      n :: (List.range others.length).map
        fun index => n + part.length + (others.take index).flatten.length := by
  rw [List.length_cons, List.range_succ_eq_map, List.map_cons, List.map_map]
  congr 1
  refine List.map_congr_left fun index _ => ?_
  rw [Function.comp_apply, List.take_succ_cons, List.flatten_cons, List.length_append]
  omega

theorem startsFrom_eq (n : ℕ) (t : Text) :
    n :: startsFrom n t =
      (List.range t.lines.length).map fun index => n + (t.lines.take index).flatten.length := by
  fun_induction lines t generalizing n with
  | case1 => rfl
  | case2 rest ih =>
      rw [startsFrom, ih (n + 2), map_range_beforeParts]
      rfl
  | case3 c rest hpair hc ih =>
      rw [startsFrom, if_pos hc, ih (n + 1), map_range_beforeParts]
      · rfl
      · exact hpair
  | case4 c rest _ _ hrest ih => exact absurd hrest (lines_ne_nil rest)
  | case5 c rest hpair hc line others hrest ih =>
      have hstarts := ih (n + 1)
      rw [hrest, map_range_beforeParts] at hstarts
      rw [startsFrom, if_neg hc, (List.cons.inj hstarts).2, map_range_beforeParts,
        List.length_cons, Nat.add_right_comm, Nat.add_assoc n]
      exact hpair

/-- **Lines start where the ones in front of them end.** -/
theorem lineStarts_eq (t : Text) :
    t.lineStarts = (List.range t.lines.length).map t.beforeLine := by
  have hstarts := startsFrom_eq 0 t
  simp only [Nat.zero_add] at hstarts
  exact hstarts

section
variable {t : Text} {index : ℕ} {content : Text}

theorem getElem?_lineStarts_of_line (h : t.lines[index]? = some content) :
    t.lineStarts[index]? = some (t.beforeLine index) := by
  obtain ⟨hlt, _⟩ := List.getElem?_eq_some_iff.mp h
  rw [lineStarts_eq, List.getElem?_map, List.getElem?_range hlt, Option.map_some]

theorem exists_line_of_start {start : ℕ} (h : t.lineStarts[index]? = some start) :
    ∃ content, t.lines[index]? = some content ∧ start = t.beforeLine index := by
  obtain ⟨hlt, hstart⟩ := List.getElem?_eq_some_iff.mp h
  simp only [lineStarts_eq, List.length_map, List.length_range, List.getElem_map,
    List.getElem_range] at hlt hstart
  exact ⟨_, List.getElem?_eq_getElem hlt, hstart.symm⟩

theorem beforeLine_succ (h : t.lines[index]? = some content) :
    t.beforeLine (index + 1) = t.beforeLine index + content.length := by
  rw [beforeLine, List.take_add_one, h, Option.toList_some, List.flatten_append,
    List.flatten_singleton, List.length_append, beforeLine]

theorem beforeLine_length (t : Text) : t.beforeLine t.lines.length = t.length := by
  rw [beforeLine, List.take_length, flatten_lines]

theorem beforeLine_le (t : Text) (index : ℕ) : t.beforeLine index ≤ t.length := by
  conv => rhs; rw [← flatten_lines t, ← List.take_append_drop index t.lines, List.flatten_append]
  rw [List.length_append]
  exact Nat.le_add_right _ _

end

end Text

namespace LineTable
variable (t : Text) (numbering : Numbering)

section
variable {t} {index start offset : ℕ}

/-- A line does not start behind an offset exactly when it is not behind the line of the offset. -/
theorem start_le_iff (h : t.lineStarts[index]? = some start) :
    start ≤ offset ↔ index ≤ (ofText t numbering).lineIndex offset := by
  have hcount := before_iff_lt (t.lineStarts_parted offset) h
  have hpos := List.length_pos_iff.mpr (startsUpTo_ne_nil t numbering offset)
  unfold lineIndex
  rw [startsUpTo_ofText] at hpos ⊢
  rw [decide_eq_true_iff] at hcount
  omega

theorem lineIndex_eq (h : t.lineStarts[index]? = some start) (hle : start ≤ offset)
    (hnext : ∀ next, t.lineStarts[index + 1]? = some next → offset < next) :
    (ofText t numbering).lineIndex offset = index := by
  have hindex := (start_le_iff numbering h).mp hle
  by_contra hne
  obtain ⟨hlt, _⟩ := List.getElem?_eq_some_iff.mp (getElem?_lineIndex t numbering offset)
  have hsucc : index + 1 < t.lineStarts.length := by omega
  have hstart := List.getElem?_eq_getElem hsucc
  exact absurd ((start_le_iff numbering hstart).mpr (by omega)) (Nat.not_le.mpr (hnext _ hstart))

end

variable (offset : ℕ)

/-- The line of an offset has it before its end, unless it is the last. -/
theorem exists_line (h : offset ≤ t.length) :
    ∃ content, t.lines[(ofText t numbering).lineIndex offset]? = some content ∧
      (offset < (ofText t numbering).lineStart offset + content.length ∨
        (ofText t numbering).lineIndex offset + 1 = t.lines.length ∧
          offset ≤ (ofText t numbering).lineStart offset + content.length) := by
  obtain ⟨content, hcontent, hstart⟩ :=
    Text.exists_line_of_start (getElem?_lineIndex t numbering offset)
  refine ⟨content, hcontent, ?_⟩
  have hsucc := Text.beforeLine_succ hcontent
  obtain ⟨hlt, _⟩ := List.getElem?_eq_some_iff.mp hcontent
  rw [hstart, ← hsucc]
  rcases Nat.lt_or_ge ((ofText t numbering).lineIndex offset + 1) t.lines.length with hnext | hlast
  · left
    have hnextStart := Text.getElem?_lineStarts_of_line (List.getElem?_eq_getElem hnext)
    by_contra hle
    have := (start_le_iff numbering hnextStart).mp (not_lt.mp hle)
    omega
  · right
    have hlines : (ofText t numbering).lineIndex offset + 1 = t.lines.length := by omega
    rw [hlines, Text.beforeLine_length]
    exact ⟨rfl, h⟩

variable {t}

/-- A position that the text has is that of an offset. -/
theorem lineIndex_beforeLine {index column : ℕ} {content : Text}
    (h : t.lines[index]? = some content)
    (hcolumn : column < content.length ∨ index + 1 = t.lines.length ∧ column ≤ content.length) :
    (ofText t numbering).lineIndex (t.beforeLine index + column) = index := by
  refine lineIndex_eq numbering (Text.getElem?_lineStarts_of_line h) (Nat.le_add_right _ _) ?_
  intro next hnext
  obtain ⟨_, hline, rfl⟩ := Text.exists_line_of_start hnext
  obtain ⟨hlt, _⟩ := List.getElem?_eq_some_iff.mp hline
  rw [Text.beforeLine_succ h]
  omega

theorem lineStart_beforeLine {index column : ℕ} {content : Text}
    (h : t.lines[index]? = some content)
    (hcolumn : column < content.length ∨ index + 1 = t.lines.length ∧ column ≤ content.length) :
    (ofText t numbering).lineStart (t.beforeLine index + column) = t.beforeLine index := by
  have hstart := getElem?_lineIndex t numbering (t.beforeLine index + column)
  rw [lineIndex_beforeLine numbering h hcolumn, Text.getElem?_lineStarts_of_line h] at hstart
  exact (Option.some.inj hstart).symm

/-! ### Positions of offsets and offsets of positions -/

variable (t)

theorem positionOf_natCast :
    (ofText t numbering).positionOf offset =
      .ok ⟨(ofText t numbering).lineIndex offset + numbering.lineBase,
        offset - (ofText t numbering).lineStart offset + numbering.columnBase⟩ := by
  have hnonneg : ¬((offset : ℤ) < 0) := by omega
  rw [positionOf, if_neg hnonneg, Int.toNat_natCast]
  rfl

theorem offsetOf_le (line column : ℤ) : (ofText t numbering).offsetOf line column ≤ t.length := by
  unfold offsetOf
  simp only
  split
  · exact Nat.zero_le _
  · split
    · exact le_refl _
    · exact min_le_right _ _

/-- Every offset of the text is found again from its position, and one behind it leads to the end. -/
theorem offsetOf_positionOf :
    (ofText t numbering).offsetOf ((ofText t numbering).lineIndex offset + numbering.lineBase)
        (offset - (ofText t numbering).lineStart offset + numbering.columnBase) =
      min offset t.length := by
  rw [offsetOf_of_getElem? numbering (getElem?_lineIndex t numbering offset)]
  congr 1
  omega

theorem position_lt {other : ℕ} (h : offset < other) :
    (ofText t numbering).lineIndex offset < (ofText t numbering).lineIndex other ∨
      (ofText t numbering).lineIndex offset = (ofText t numbering).lineIndex other ∧
        offset - (ofText t numbering).lineStart offset <
          other - (ofText t numbering).lineStart other := by
  have hle := lineStart_le t numbering offset
  rcases lt_or_eq_of_le (lineIndex_mono t numbering h.le) with hlt | heq
  · exact Or.inl hlt
  · rw [← lineStart_congr t numbering heq]
    exact Or.inr ⟨heq, by omega⟩

theorem positionOf_offsetOf_iff (line column : ℤ) :
    (ofText t numbering).positionOf ((ofText t numbering).offsetOf line column) =
        .ok ⟨line, column⟩ ↔
      t.HasPosition (line - numbering.lineBase) (column - numbering.columnBase) := by
  constructor
  · intro h
    have hoffset := offsetOf_le t numbering line column
    generalize (ofText t numbering).offsetOf line column = offset at h hoffset
    rw [positionOf_natCast] at h
    obtain ⟨rfl, rfl⟩ := Position.mk.inj (Except.ok.inj h)
    obtain ⟨content, hcontent, hinside⟩ := exists_line t numbering offset hoffset
    have hle := lineStart_le t numbering offset
    exact ⟨_, content, by omega, hcontent, by omega, by omega⟩
  · rintro ⟨index, content, hindex, hcontent, hnonneg, hinside⟩
    obtain ⟨place, hplace⟩ := Int.eq_ofNat_of_zero_le hnonneg
    have hstart := Text.getElem?_lineStarts_of_line hcontent
    have hend := Text.beforeLine_le t (index + 1)
    rw [Text.beforeLine_succ hcontent] at hend
    have hcolumn : place < content.length ∨
        index + 1 = t.lines.length ∧ place ≤ content.length := by omega
    obtain rfl : line = index + numbering.lineBase := by omega
    obtain rfl : column = place + numbering.columnBase := by omega
    have hoffset : (ofText t numbering).offsetOf (index + numbering.lineBase)
        (place + numbering.columnBase) = t.beforeLine index + place := by
      rw [offsetOf_of_getElem? numbering hstart]
      omega
    rw [hoffset, positionOf_natCast, lineIndex_beforeLine numbering hcontent hcolumn,
      lineStart_beforeLine numbering hcontent hcolumn]
    congr 2
    omega

/-- **Offsets and positions are inverse to each other wherever they can be.**  Every offset of the
text leads to a position that leads back to it, and those behind the text lead back to its end;
further offsets have greater positions.  Every position leads into the text, and it is the position of
the offset that it leads to exactly when the text has it. -/
theorem position_offset_inverse :
    (∀ offset : ℕ, ∃ p, (ofText t numbering).positionOf offset = .ok p ∧
      (ofText t numbering).offsetOf p.line p.column = min offset t.length) ∧
    (∀ offset other : ℕ, offset < other →
      ∃ p q, (ofText t numbering).positionOf offset = .ok p ∧
        (ofText t numbering).positionOf other = .ok q ∧
        toLex (p.line, p.column) < toLex (q.line, q.column)) ∧
    ∀ line column : ℤ, (ofText t numbering).offsetOf line column ≤ t.length ∧
      ((ofText t numbering).positionOf ((ofText t numbering).offsetOf line column) =
          .ok ⟨line, column⟩ ↔
        t.HasPosition (line - numbering.lineBase) (column - numbering.columnBase)) := by
  refine ⟨fun offset => ⟨_, positionOf_natCast t numbering offset, ?_⟩,
    fun offset other h => ⟨_, _, positionOf_natCast t numbering offset,
      positionOf_natCast t numbering other, ?_⟩,
    fun line column => ⟨offsetOf_le t numbering line column,
      positionOf_offsetOf_iff t numbering line column⟩⟩
  · exact offsetOf_positionOf t numbering offset
  · have hlt := position_lt t numbering offset h
    have hle := lineStart_le t numbering offset
    have hle' := lineStart_le t numbering other
    rw [Prod.Lex.toLex_lt_toLex]
    simp only
    omega

/-- A letter on either side of a pair of terminators. -/
def twoLetters : Text := ['a', '\r', '\n', 'b']

/-- Lines and columns counted from one: the line feed and the letter behind it, the end, and a column
behind the first line. -/
theorem position_offset_inverse_twoLetters :
    (∃ p q, (ofText twoLetters ⟨1, 1⟩).positionOf (2 : ℕ) = .ok p ∧
      (ofText twoLetters ⟨1, 1⟩).positionOf (3 : ℕ) = .ok q ∧
      toLex (p.line, p.column) < toLex (q.line, q.column)) ∧
    (ofText twoLetters ⟨1, 1⟩).positionOf ((ofText twoLetters ⟨1, 1⟩).offsetOf 2 2) =
      .ok ⟨2, 2⟩ ∧
    (ofText twoLetters ⟨1, 1⟩).positionOf ((ofText twoLetters ⟨1, 1⟩).offsetOf 1 4) ≠
      .ok ⟨1, 4⟩ := by
  obtain ⟨-, hordered, hpositions⟩ := position_offset_inverse twoLetters ⟨1, 1⟩
  refine ⟨hordered 2 3 (by decide), (hpositions 2 2).2.mpr ?_, fun h => ?_⟩
  · exact ⟨1, ['b'], rfl, rfl, by decide, Or.inr ⟨rfl, by decide⟩⟩
  · obtain ⟨index, content, hindex, hcontent, -, hcolumn⟩ := (hpositions 1 4).2.mp h
    obtain rfl : index = 0 := Int.natCast_eq_zero.mp hindex.symm
    obtain rfl : ['a', '\r', '\n'] = content := Option.some.inj hcontent
    revert hcolumn
    decide

end LineTable

end TracedText
