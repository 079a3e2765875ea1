import TracedText.Proofs.Columns
import TracedText.Proofs.Messages
import TracedText.Proofs.Origins

/-! # Lookups by column and by offset

A source file looks an offset up by its column in code units; a loaded buffer turns the columns of
entries into offsets instead.  Both put every entry on the same side of every offset
(`reaches_iff`), so what is found is the last entry of the line whose place is not behind the offset
(`trace?_last_reached`), also when columns lie inside characters and beyond the end of the line. -/

namespace TracedText

/-! ### Lines of a text -/

namespace Text
variable (t : Text) (offset : ℕ)

/-- The line of an offset, lines counted from one: so many start in front of the offset or at it. -/
def lineOf : ℕ := t.lineStarts.countP fun start => start ≤ offset

/-- Where the line of an offset starts. -/
def startOf : ℕ := (t.lineStarts.filter fun start => start ≤ offset).getLastD 0

variable {t offset}

theorem lineStarts_le_of_length_le (h : t.length ≤ offset) {start : ℕ}
    (hstart : start ∈ t.lineStarts) : start ≤ offset ↔ start ≤ t.length :=
  iff_of_true (le_trans (le_length_of_mem_lineStarts hstart) h) (le_length_of_mem_lineStarts hstart)

theorem lineOf_of_length_le (h : t.length ≤ offset) : t.lineOf offset = t.lineOf t.length :=
  List.countP_congr fun start hstart => by simp [lineStarts_le_of_length_le h hstart]

theorem startOf_of_length_le (h : t.length ≤ offset) : t.startOf offset = t.startOf t.length := by
  unfold startOf
  rw [List.filter_congr fun start hstart => decide_eq_decide.mpr
    (lineStarts_le_of_length_le h hstart)]

theorem unitColumn_of_length_le (start : ℕ) (h : t.length ≤ offset) :
    t.unitColumn start offset = t.unitColumn start t.length := by
  rw [unitColumn_natCast, unitColumn_natCast, List.take_of_length_le h, List.take_length]

end Text

namespace LineTable
variable (t : Text) (numbering : Numbering) (offset : ℕ)

theorem lineIndex_add_one : (ofText t numbering).lineIndex offset + 1 = t.lineOf offset := by
  have hpos := List.length_pos_iff.mpr (startsUpTo_ne_nil t numbering offset)
  unfold lineIndex Text.lineOf
  rw [startsUpTo_ofText] at hpos ⊢
  rw [List.countP_eq_length_filter]
  omega

theorem lineStart_eq : (ofText t numbering).lineStart offset = t.startOf offset := by
  rw [lineStart, startsUpTo_ofText, Text.startOf]

end LineTable

/-! ### Entries and offsets -/

/-- The entry is on the line of an offset, and the place of its column there is not behind the
offset. -/
def Entry.reaches (text : Text) (offset : ℕ) (e : Entry) : Bool :=
  e.line == text.lineOf offset &&
    match text.offsetOfUnits (text.startOf offset) e.column with
    | .ok place => place ≤ offset
    | .error _ => false

/-- **It is the same to compare offsets and to compare columns.** -/
theorem Entry.reaches_iff {text : Text} {offset : ℕ} (h : offset ≤ text.length) (e : Entry) :
    e.reaches text offset = true ↔
      e.line = text.lineOf offset ∧
        e.column ≤ text.unitColumn (text.startOf offset) offset := by
  have hstart := LineTable.lineStart_le text .oneBasedLines offset
  rw [LineTable.lineStart_eq] at hstart
  have hcolumn := Text.offsetOfUnits_le_iff e.column hstart h
  rw [Nat.cast_le] at hcolumn
  unfold reaches
  rw [Bool.and_eq_true, beq_iff_eq, ← hcolumn]
  refine and_congr_right fun _ => ?_
  cases text.offsetOfUnits (text.startOf offset) e.column with
  | error error => simp
  | ok place => simp

/-! ### Offsets in front of the text -/

namespace RangeError
variable {offset : ℤ}

theorem told_negativeOffset (h : offset.natAbs < Nat.pow 10 Bounds.digits) :
    ∃ words, (Failure.range (.negativeOffset offset)).told =
      (.range (.negativeOffset offset), some words) := by
  refine Failure.told_of_sayable rfl ?_
  exact Message.sayable_cons.mpr ⟨trivial, Message.sayable_cons.mpr ⟨h, Message.sayable_nil⟩⟩

end RangeError

/-! ### Lookups -/

namespace SourceFile
variable (path : Option Path) (text : Text)

theorem trace?_eq_find? (index : MapIndex) (offset : ℕ) :
    trace? ⟨path, text, some index⟩ offset =
      .ok (index.find? (text.lineOf offset) (text.unitColumn (text.startOf offset) offset)) := by
  rw [trace?_eq, LineTable.lineIndex_add_one, LineTable.lineStart_eq]

theorem trace?_of_neg (index : MapIndex) {offset : ℤ} (h : offset < 0) :
    trace? ⟨path, text, some index⟩ offset = .error (.negativeOffset offset) := by
  unfold trace?
  simp only [lines, LineTable.positionOf, if_pos h]
  rfl

/-- **What is found for an offset.**  It is the last entry, in the stable order of the generated
positions, that is on the line of the offset and whose place is not behind the offset, unless it has
no source.  Behind the text the same is found as at its end.  An offset in front of the text is
refused, in words if the offset has any. -/
theorem trace?_last_reached (entries : List Entry) :
    ∃ sorted, SortedBy Entry.place entries sorted ∧
      (∀ offset : ℕ, offset ≤ text.length →
        trace? ⟨path, text, some (.ofEntries entries)⟩ offset =
          .ok ((sorted.filter (Entry.reaches text offset)).getLast?.filter (·.source.isSome))) ∧
      (∀ offset : ℕ, text.length ≤ offset →
        trace? ⟨path, text, some (.ofEntries entries)⟩ offset =
          trace? ⟨path, text, some (.ofEntries entries)⟩ text.length) ∧
      ∀ offset : ℤ, offset < 0 →
        trace? ⟨path, text, some (.ofEntries entries)⟩ offset = .error (.negativeOffset offset) ∧
        (offset.natAbs < Nat.pow 10 Bounds.digits → ∃ words,
          (Failure.range (.negativeOffset offset)).told =
            (.range (.negativeOffset offset), some words)) := by
  have hordered : (MapIndex.ofEntries entries).entries.Pairwise fun a b => a.place ≤ b.place :=
    (Entry.sort_sortedBy entries).ascending
  refine ⟨Entry.sort entries, Entry.sort_sortedBy entries, ?_, ?_, ?_⟩
  · intro offset hoffset
    rw [trace?_eq_find?, MapIndex.find?_eq_getLast? hordered]
    have hreached (e : Entry) : decide ((e.line : ℤ) = text.lineOf offset ∧
        (e.column : ℤ) ≤ text.unitColumn (text.startOf offset) offset) = e.reaches text offset := by
      rw [Bool.eq_iff_iff, decide_eq_true_iff, Entry.reaches_iff hoffset, Nat.cast_inj, Nat.cast_le]
    rw [funext hreached]
    rfl
  · intro offset hoffset
    rw [trace?_eq_find?, trace?_eq_find?, Text.lineOf_of_length_le hoffset,
      Text.startOf_of_length_le hoffset, Text.unitColumn_of_length_le _ hoffset]
  · intro offset hoffset
    exact ⟨trace?_of_neg path text _ hoffset, RangeError.told_negativeOffset⟩

/-- A character of two code units between two letters, the second on a line of its own. -/
def astralText : Text := ['a', '𝄞', '\n', 'b']

/-- Entries in no order: one inside the character, one beyond its line, and one without a source in
front of another. -/
def astralEntries : List Entry :=
  [⟨2, 1, some "t", some 7, some 0, none, Nat.two_pos⟩,
    ⟨2, 0, none, none, none, none, Nat.two_pos⟩,
    ⟨1, 9, some "s", some 3, some 0, none, Nat.one_pos⟩,
    ⟨1, 2, some "s", some 2, some 4, some "n", Nat.one_pos⟩,
    ⟨1, 0, some "s", some 1, some 0, none, Nat.one_pos⟩]

theorem trace?_last_reached_astral :
    let astral : SourceFile := ⟨none, astralText, some (.ofEntries astralEntries)⟩
    astral.trace? 1 = .ok (some ⟨1, 0, some "s", some 1, some 0, none, Nat.one_pos⟩) ∧
      astral.trace? 2 = .ok (some ⟨1, 2, some "s", some 2, some 4, some "n", Nat.one_pos⟩) ∧
      astral.trace? 3 = .ok none ∧
      astral.trace? 9 = .ok (some ⟨2, 1, some "t", some 7, some 0, none, Nat.two_pos⟩) ∧
      astral.trace? (-1) = .error (.negativeOffset (-1)) ∧
      ∃ words, (Failure.range (.negativeOffset (-1))).told =
        (.range (.negativeOffset (-1)), some words) := by
  intro astral
  obtain ⟨sorted, hsorted, hinside, hbehind, hnegative⟩ :=
    trace?_last_reached none astralText astralEntries
  obtain rfl : sorted = Entry.sort astralEntries := hsorted.unique (Entry.sort_sortedBy _)
  have hlength : astralText.length = 4 := rfl
  have hend := (hbehind 9 (by decide)).trans (hinside astralText.length (le_refl _))
  obtain ⟨hrefused, htold⟩ := hnegative (-1) (by decide)
  refine ⟨(hinside 1 (by decide)).trans ?_, (hinside 2 (by decide)).trans ?_,
    (hinside 3 (by decide)).trans ?_, hend.trans ?_, hrefused, htold (lt_pow_digits (by decide))⟩
  · cbv
  · cbv
  · cbv
  · cbv

end SourceFile

end TracedText
