import Mathlib
import TracedText.Proofs.Mappings
import TracedText.Proofs.Messages

/-! # What a map document looks like

A document lists each source and each name once, in the order of first use, and its mappings have one
segment for each entry, on the line of the entry (`Document.Shows`).  Columns ascend on a line, so
the first field of every segment is no less than zero: that is what the cursor carries from one
segment to the next (`encodeLine_spelled`).  When an entry cannot be encoded, the first such entry
is named (`Document.ofEntries_shape`). -/

namespace TracedText

/-! ### Tables -/

/-- The table holds the values, each once, in the order of first use. -/
structure FirstUsesOf (values table : List String) : Prop where
  nodup : table.Nodup
  mem_iff : ∀ value, value ∈ table ↔ value ∈ values
  ordered : table.Pairwise fun a b => values.idxOf a < values.idxOf b

theorem firstUses_nodup (values : List String) : (firstUses values).Nodup := by
  induction values with
  | nil => exact List.nodup_nil
  | cons first rest ih =>
      rw [firstUses, List.nodup_cons]
      exact ⟨by simp, ih.sublist List.filter_sublist⟩

theorem firstUses_ordered (values : List String) :
    (firstUses values).Pairwise fun a b => values.idxOf a < values.idxOf b := by
  induction values with
  | nil => exact .nil
  | cons first rest ih =>
      have hne : ∀ value ∈ (firstUses rest).filter (· != first), first ≠ value :=
        fun value hvalue => (bne_iff_ne.mp (List.mem_filter.mp hvalue).2).symm
      rw [firstUses]
      refine .cons (fun value hvalue => ?_) ((ih.filter _).imp_of_mem fun {a b} ha hb hab => ?_)
      · rw [List.idxOf_cons_self, List.idxOf_cons_ne rest (hne value hvalue)]
        exact Nat.succ_pos _
      · rw [List.idxOf_cons_ne rest (hne a ha), List.idxOf_cons_ne rest (hne b hb)]
        exact Nat.succ_lt_succ hab

theorem firstUses_of (values : List String) : FirstUsesOf values (firstUses values) :=
  ⟨firstUses_nodup values, fun _ => mem_firstUses, firstUses_ordered values⟩

/-! ### Segments -/

namespace Entry

/-- The number of fields of the segment of an entry: one without a source, and else four, or five
with a name that is not empty. -/
def fieldCount (e : Entry) : ℕ :=
  match e.source, e.name.filter (· ≠ "") with
  | none, _ => 1
  | some _, none => 4
  | some _, some _ => 5

/-- The text spells as many integers as the segment of an entry has fields, and the first of them is
not negative. -/
structure SpelledBy (e : Entry) (text : Text) : Prop where
  ne_nil : text ≠ []
  fields : ∃ first rest, Vlq.decode text = .ok (first :: rest) ∧ 0 ≤ first ∧
    rest.length + 1 = e.fieldCount

variable (sources names : List String)

theorem fields_segment (e : Entry) (c : Cursor) :
    ∃ rest, c.fields (e.segment sources names) = (e.column - c.column) :: rest ∧
      rest.length + 1 = e.fieldCount := by
  refine ⟨_, rfl, ?_⟩
  unfold segment fieldCount
  cases hsource : e.source with
  | none => rfl
  | some source =>
      simp only [usedName_of_source hsource, Option.map_some]
      cases e.name.filter (· ≠ "") <;> rfl

theorem spelledBy_segment {e : Entry} {c : Cursor} (h : c.column ≤ e.column) :
    e.SpelledBy (Vlq.encode (c.fields (e.segment sources names))) := by
  obtain ⟨rest, hfields, hlength⟩ := e.fields_segment sources names c
  rw [hfields]
  exact ⟨Vlq.encode_cons_ne_nil _ _, _, rest, Vlq.decode_encode _, by omega, hlength⟩

end Entry

/-! ### Lines -/

theorem Cursor.column_after (c : Cursor) (s : Segment) : (c.after s).column = s.column := by
  unfold after
  cases s.origin <;> rfl

/-- The segments of entries whose columns ascend from the cursor on are spelled one by one. -/
theorem encodeLine_spelled (sources names : List String) {entries : List Entry} {c : Cursor}
    (hascending : entries.Pairwise fun a b => a.column ≤ b.column)
    (hfront : ∀ e ∈ entries, c.column ≤ e.column) :
    List.Forall₂ Entry.SpelledBy entries
      (c.encodeLine (entries.map (Entry.segment sources names))).1 := by
  induction entries generalizing c with
  | nil => exact .nil
  | cons e rest ih =>
      refine .cons (Entry.spelledBy_segment sources names (hfront e List.mem_cons_self)) ?_
      refine ih hascending.of_cons fun other hother => ?_
      rw [Cursor.column_after]
      exact Int.ofNat_le.mpr (List.rel_of_pairwise_cons hascending hother)

/-- The text of a line has one segment for each entry, in order, with commas between them. -/
def LineOf (entries : List Entry) (text : Text) : Prop :=
  ∃ segments, List.Forall₂ Entry.SpelledBy entries segments ∧ text = [','].intercalate segments

theorem encodeLines_lineOf (sources names : List String) {entries : ℕ → List Entry}
    (hascending : ∀ line, (entries line).Pairwise fun a b => a.column ≤ b.column) (c : Cursor)
    (lines : List ℕ) :
    List.Forall₂ (fun line text => LineOf (entries line) text) lines
      (c.encodeLines (lines.map fun line =>
        (entries line).map (Entry.segment sources names))) := by
  induction lines generalizing c with
  | nil => exact .nil
  | cons line rest ih =>
      refine .cons ⟨_, encodeLine_spelled sources names (hascending line) ?_, rfl⟩ (ih _)
      exact fun e _ => Int.natCast_nonneg e.column

/-! ### Documents -/

/-- The document shows entries that are in order: its tables list what they use, and the lines up to
the last one hold their segments. -/
structure Document.Shows (d : Document) (ordered : List Entry) : Prop where
  sources : FirstUsesOf (ordered.filterMap (·.source)) d.sources
  names : FirstUsesOf
    ((ordered.filter (·.source.isSome)).filterMap fun e => e.name.filter (· ≠ "")) d.names
  lines : List.Forall₂ (fun line text => LineOf (ordered.filter fun e => e.line = line) text)
    (List.range' 1 ((ordered.map Entry.line).foldl max 1)) (d.mappings.splitOn ';')

theorem Entry.filterMap_usedName (entries : List Entry) :
    entries.filterMap (·.usedName) =
      (entries.filter (·.source.isSome)).filterMap fun e => e.name.filter (· ≠ "") := by
  rw [List.filterMap_filter]
  refine List.filterMap_congr fun e _ => ?_
  cases hsource : e.source with
  | none => simp [usedName, hsource]
  | some source => simp [usedName_of_source hsource]

namespace Document

theorem columns_ascending {ordered : List Entry}
    (h : ordered.Pairwise fun a b => a.place ≤ b.place) (line : ℕ) :
    (ordered.filter fun e => e.line = line).Pairwise fun a b => a.column ≤ b.column := by
  refine (h.filter _).imp_of_mem fun {a b} ha hb hab => ?_
  have hline_a := of_decide_eq_true (List.mem_filter.mp ha).2
  have hline_b := of_decide_eq_true (List.mem_filter.mp hb).2
  rw [Entry.place, Entry.place, Prod.Lex.toLex_le_toLex] at hab
  omega

theorem shows_segmentLines (file sourceRoot : String) {ordered : List Entry}
    (h : ordered.Pairwise fun a b => a.place ≤ b.place) :
    Shows ⟨file, sourceRoot, sourceTable ordered, nameTable ordered,
      [';'].intercalate (Cursor.start.encodeLines (segmentLines ordered))⟩ ordered := by
  refine ⟨firstUses_of _, ?_, ?_⟩
  · rw [← Entry.filterMap_usedName]
    exact firstUses_of _
  · rw [splitOn_lines _ (segmentLines_ne_nil ordered), List.foldl_map]
    exact encodeLines_lineOf _ _ (columns_ascending h) Cursor.start _

end Document

/-! ### Entries without a position -/

theorem Entry.toSegment_of_not_positioned {e : Entry} (h : ¬e.Positioned)
    (sources names : List String) : e.toSegment sources names = .error ⟨e.line, e.column⟩ := by
  unfold Positioned at h
  unfold toSegment
  cases hsource : e.source with
  | none => exact absurd (by simp [hsource]) h
  | some source =>
      cases hline : e.sourceLine with
      | none => rfl
      | some line =>
          cases hcolumn : e.sourceColumn with
          | none => rfl
          | some column => exact absurd (by simp [hline, hcolumn]) h

/-- The first entry in order that has a source and no full position in it. -/
def unplaced? (ordered : List Entry) : Option Entry :=
  ordered.find? fun e => !decide e.Positioned

theorem exists_unplaced? {entries : List Entry} (h : ∃ e ∈ entries, ¬e.Positioned) :
    ∃ e, unplaced? (Entry.sort entries) = some e := by
  obtain ⟨e, he, hunplaced⟩ := h
  refine Option.isSome_iff_exists.mp (List.find?_isSome.mpr ⟨e, Entry.mem_sort.mpr he, ?_⟩)
  simpa using hunplaced

theorem Document.ofEntries_of_unplaced {entries : List Entry} {e : Entry} (file sourceRoot : String)
    (h : unplaced? (Entry.sort entries) = some e) :
    ofEntries entries file sourceRoot = .error ⟨e.line, e.column⟩ := by
  have hunplaced : ¬e.Positioned := by simpa using List.find?_some h
  refine bind_eq_error.mpr (Or.inl (mapM_of_find? (fun other hother => ?_) h ?_))
  · have hpositioned : other.Positioned := by simpa using hother
    exact ⟨_, bind_eq_ok.mpr ⟨_, Entry.toSegment_eq_ok.mpr ⟨hpositioned, rfl⟩, rfl⟩⟩
  · exact bind_eq_error.mpr (Or.inl (Entry.toSegment_of_not_positioned hunplaced _ _))

namespace NoSourcePosition
variable (e : NoSourcePosition)

/-- The failure in words. -/
def words : String :=
  "Entry at " ++ toString e.line ++ ":" ++ toString e.column ++
    " has a source but no original position"

theorem message_said : e.message.said = e.words := by
  show e.message.said = "Entry at " ++ toString e.line ++ ":" ++ toString e.column ++
    " has a source but no original position"
  simp only [Message.said, message, List.flatMap_cons, List.flatMap_nil, Piece.said,
    integerText_natCast, List.append_nil, String.ofList_append, String.ofList_toList,
    String.append_assoc]

theorem message_sayable_iff : e.message.Sayable ↔
    e.line < Nat.pow 10 Bounds.digits ∧ e.column < Nat.pow 10 Bounds.digits := by
  simp only [message, Message.sayable_cons, Message.sayable_nil, Piece.sayable_words,
    Piece.sayable_natCast, and_true, true_and]

theorem told_words (hline : e.line < Nat.pow 10 Bounds.digits)
    (hcolumn : e.column < Nat.pow 10 Bounds.digits) :
    (Failure.origin e).told = (.origin e, some e.words) := by
  rw [Failure.told_said rfl (e.message_sayable_iff.mpr ⟨hline, hcolumn⟩), message_said]

theorem told_of_long (h : Nat.pow 10 Bounds.digits ≤ e.line ∨ Nat.pow 10 Bounds.digits ≤ e.column) :
    (Failure.origin e).told = (.unsayable .longNumber, none) := by
  refine Failure.told_of_long rfl (by simp [message]) fun hsayable => ?_
  obtain ⟨hline, hcolumn⟩ := e.message_sayable_iff.mp hsayable
  exact h.elim (Nat.not_le.mpr hline) (Nat.not_le.mpr hcolumn)

end NoSourcePosition

/-! ### Outcomes -/

namespace Document

/-- **What encoding entries comes to.**  When entries have a source and no full position in it, there
is no document, and the first of them in the stable order of the generated positions is named, unless
its place is too long a number for words.  Otherwise there is a document, and it shows the entries. -/
theorem ofEntries_shape (entries : List Entry) (file sourceRoot : String) :
    ∃ ordered, SortedBy Entry.place entries ordered ∧
      ((∃ e ∈ entries, ¬e.Positioned) → ∃ e error, unplaced? ordered = some e ∧
        error = NoSourcePosition.mk e.line e.column ∧
        ofEntries entries file sourceRoot = .error error ∧
        (e.line < Nat.pow 10 Bounds.digits → e.column < Nat.pow 10 Bounds.digits →
          (Failure.origin error).told = (.origin error, some error.words)) ∧
        (Nat.pow 10 Bounds.digits ≤ e.line ∨ Nat.pow 10 Bounds.digits ≤ e.column →
          (Failure.origin error).told = (.unsayable .longNumber, none))) ∧
      ((∀ e ∈ entries, e.Positioned) → ∃ d, ofEntries entries file sourceRoot = .ok d ∧
        d.file = file ∧ d.sourceRoot = sourceRoot ∧ d.Shows ordered) := by
  have hsorted := Entry.sort_sortedBy entries
  refine ⟨Entry.sort entries, hsorted, fun hunplaced => ?_, fun hpositioned => ?_⟩
  · obtain ⟨e, he⟩ := exists_unplaced? hunplaced
    exact ⟨e, ⟨e.line, e.column⟩, he, rfl, ofEntries_of_unplaced file sourceRoot he,
      NoSourcePosition.told_words ⟨e.line, e.column⟩,
      NoSourcePosition.told_of_long ⟨e.line, e.column⟩⟩
  · exact ⟨_, ofEntries_eq_ok.mpr ⟨hpositioned, rfl⟩, rfl, rfl,
      shows_segmentLines file sourceRoot hsorted.ascending⟩

/-- Entries of which two have no full position, the first of these in order given last. -/
def unplaced : List Entry :=
  [⟨2, 0, some "a", none, some 1, none, Nat.two_pos⟩,
    ⟨1, 3, some "a", some 1, some 1, some "f", Nat.one_pos⟩,
    ⟨1, 4, some "b", some 2, none, none, Nat.one_pos⟩]

theorem ofEntries_shape_unplaced :
    ofEntries unplaced "out" "" = .error ⟨1, 4⟩ ∧
      (Failure.origin ⟨1, 4⟩).told =
        (.origin ⟨1, 4⟩, some "Entry at 1:4 has a source but no original position") ∧
      ∃ d, ofEntries scattered "out" "src" = .ok d ∧ d.Shows (Entry.sort scattered) := by
  obtain ⟨ordered, hordered, hunplaced, -⟩ := ofEntries_shape unplaced "out" ""
  obtain rfl : ordered = Entry.sort unplaced := hordered.unique (Entry.sort_sortedBy _)
  obtain ⟨e, error, he, rfl, herror, htold, -⟩ := hunplaced (by decide)
  have hfirst : unplaced? (Entry.sort unplaced) =
      some ⟨1, 4, some "b", some 2, none, none, Nat.one_pos⟩ := by cbv
  obtain rfl := Option.some.inj (he.symm.trans hfirst)
  obtain ⟨sorted, hsorted, -, hshown⟩ := ofEntries_shape scattered "out" "src"
  obtain rfl : sorted = Entry.sort scattered := hsorted.unique (Entry.sort_sortedBy _)
  obtain ⟨d, hd, -, -, hshows⟩ := hshown (by decide)
  exact ⟨herror, htold (lt_pow_digits (by decide)) (lt_pow_digits (by decide)), d, hd, hshows⟩

/-- An entry with a source and no position in it. -/
def unplacedAt (column : ℕ) : Entry := ⟨1, column, some "s", none, none, none, Nat.one_pos⟩

/-- An entry whose place is too long a number for words is not named. -/
theorem ofEntries_far : ∃ error,
    ofEntries [unplacedAt (Nat.pow 10 Bounds.digits)] "out" "" = .error error ∧
      (Failure.origin error).told = (.unsayable .longNumber, none) := by
  have hfar (column : ℕ) (h : Nat.pow 10 Bounds.digits ≤ column) : ∃ error,
      ofEntries [unplacedAt column] "out" "" = .error error ∧
        (Failure.origin error).told = (.unsayable .longNumber, none) := by
    have hfirst : unplaced? (Entry.sort [unplacedAt column]) = some (unplacedAt column) := by
      rw [Entry.sort, List.mergeSort_singleton]
      rfl
    exact ⟨⟨1, column⟩, ofEntries_of_unplaced "out" "" hfirst,
      NoSourcePosition.told_of_long ⟨1, column⟩ (Or.inr h)⟩
  exact hfar _ (le_refl _)

end Document

end TracedText
