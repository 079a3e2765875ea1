import TracedText.Proofs.Acceptance

/-! # Places in sources

The format counts the lines of a source from one and its columns from zero.  Decoding refuses a sum
of generated columns below zero and an index outside its table, but it takes the sums of lines and
columns in the sources as they are: documents that differ in these only decode alike
(`exists_decodeMap_of_displaced`).  So the entries have places in their sources exactly when none of
these sums is below zero at a segment with a source (`decodeMap_inSource_iff`). -/

namespace TracedText

/-! ### Entries and sums -/

/-- The entry has a place in its source: a line from one on and a column from zero on. -/
def Entry.InSource (e : Entry) : Prop :=
  ∃ line column, e.sourceLine = some line ∧ e.sourceColumn = some column ∧ 1 ≤ line ∧ 0 ≤ column

/-- The running sums of the lines and columns in the sources, both counted from zero, are not below
it. -/
def Spot.InSource (s : Spot) : Prop := 0 ≤ s.sourceLine ∧ 0 ≤ s.sourceColumn

instance (s : Spot) : Decidable s.InSource := inferInstanceAs (Decidable (_ ∧ _))

theorem Spot.entry_inSource_iff {s : Spot} {header : Header}
    (h : (s.entry header).source.isSome) : (s.entry header).InSource ↔ s.InSource := by
  have hcount : s.fields.length ≠ 1 := by
    intro hbare
    rw [entry, if_pos hbare] at h
    exact Bool.false_ne_true h
  rw [entry, if_neg hcount]
  unfold Entry.InSource Spot.InSource
  constructor
  · rintro ⟨_, _, ⟨⟩, ⟨⟩, hline, hcolumn⟩
    exact ⟨by omega, hcolumn⟩
  · rintro ⟨hline, hcolumn⟩
    exact ⟨_, _, rfl, rfl, by omega, hcolumn⟩

theorem entriesOf_inSource_iff {header : Header} {rows : List (List (List ℤ))} :
    (∀ e ∈ entriesOf header rows, e.source.isSome → e.InSource) ↔
      ∀ spot ∈ Spot.ofRows [] rows, (spot.entry header).source.isSome → spot.InSource := by
  rw [entriesOf, List.forall_mem_map]
  exact forall₂_congr fun spot _ => forall_congr' fun h => Spot.entry_inSource_iff h

/-! ### Fields that are not checked -/

/-- The fields of a segment with zeros for its line and column in the source. -/
def fieldsWithoutPlace (fields : List ℤ) : List ℤ := (fields.set 2 0).set 3 0

@[simp] theorem length_fieldsWithoutPlace (fields : List ℤ) :
    (fieldsWithoutPlace fields).length = fields.length := by
  rw [fieldsWithoutPlace, List.length_set, List.length_set]

section
variable {index : ℕ} (hline : index ≠ 2) (hcolumn : index ≠ 3)
include hline hcolumn

theorem getElem?_fieldsWithoutPlace (fields : List ℤ) :
    (fieldsWithoutPlace fields)[index]? = fields[index]? := by
  rw [fieldsWithoutPlace, List.getElem?_set_ne hcolumn.symm, List.getElem?_set_ne hline.symm]

theorem fieldSum_withoutPlace (segments : List (List ℤ)) :
    fieldSum index (segments.map fieldsWithoutPlace) = fieldSum index segments := by
  unfold fieldSum
  rw [List.filterMap_map]
  congr 2
  funext fields
  exact getElem?_fieldsWithoutPlace hline hcolumn fields

end

namespace Spot

/-- The spot with zeros for all lines and columns in the sources. -/
def withoutPlace (s : Spot) : Spot :=
  ⟨s.above.map (·.map fieldsWithoutPlace), s.front.map fieldsWithoutPlace,
    fieldsWithoutPlace s.fields⟩

variable (s : Spot)

theorem onLine_withoutPlace : s.withoutPlace.onLine = s.onLine.map fieldsWithoutPlace := by
  rw [onLine, onLine, List.map_append]
  rfl

theorem upTo_withoutPlace : s.withoutPlace.upTo = s.upTo.map fieldsWithoutPlace := by
  rw [upTo, upTo, onLine_withoutPlace, List.map_append, List.map_flatten]
  rfl

variable {s} in
/-- Of its sums only three have a say in whether a segment fits a header. -/
theorem Fits.of_sums {header : Header} {other : Spot} (h : s.Fits header)
    (hcount : other.fields.length = s.fields.length) (hcolumn : other.column = s.column)
    (hsource : other.source = s.source) (hname : other.name = s.name) : other.Fits header := by
  refine ⟨?_, ?_, ?_, ?_⟩
  · rw [hcount]
    exact h.count
  · rw [hcolumn]
    exact h.column
  · rw [hcount, hsource]
    exact h.source
  · rw [hcount, hname]
    exact h.name

/-- **A segment fits a header wherever it is in its source.** -/
theorem fits_withoutPlace_iff {header : Header} : s.withoutPlace.Fits header ↔ s.Fits header := by
  have hcount : s.withoutPlace.fields.length = s.fields.length := length_fieldsWithoutPlace s.fields
  have hcolumn : s.withoutPlace.column = s.column := by
    rw [column, onLine_withoutPlace, fieldSum_withoutPlace (by decide) (by decide), column]
  have hsource : s.withoutPlace.source = s.source := by
    rw [source, upTo_withoutPlace, fieldSum_withoutPlace (by decide) (by decide), source]
  have hname : s.withoutPlace.name = s.name := by
    rw [name, upTo_withoutPlace, fieldSum_withoutPlace (by decide) (by decide), name]
  constructor
  · exact fun h => h.of_sums hcount.symm hcolumn.symm hsource.symm hname.symm
  · exact fun h => h.of_sums hcount hcolumn hsource hname

/-- Zeros for the places in a row, and in all that stands in front of it, are zeros for those of its
spots. -/
theorem ofRow_withoutPlace (above : List (List (List ℤ))) (front row : List (List ℤ)) :
    ofRow (above.map (·.map fieldsWithoutPlace)) (front.map fieldsWithoutPlace)
        (row.map fieldsWithoutPlace) = (ofRow above front row).map withoutPlace := by
  induction row generalizing front with
  | nil => rfl
  | cons fields rest ih =>
      have hrest := ih (front ++ [fields])
      rw [List.map_append] at hrest
      rw [List.map_cons, ofRow_cons, ofRow_cons, List.map_cons, ← hrest]
      rfl

theorem ofRows_withoutPlace (above rows : List (List (List ℤ))) :
    ofRows (above.map (·.map fieldsWithoutPlace)) (rows.map (·.map fieldsWithoutPlace)) =
      (ofRows above rows).map withoutPlace := by
  induction rows generalizing above with
  | nil => rfl
  | cons row rest ih =>
      have hrest := ih (above ++ [row])
      rw [List.map_append] at hrest
      rw [List.map_cons, ofRows_cons, ofRows_cons, List.map_append, ← hrest, ← ofRow_withoutPlace]
      rfl

end Spot

/-! ### Documents -/

/-- The document has the given tables, and its segments are the given ones but for their lines and
columns in the sources. -/
def Displaced (header : Header) (rows : List (List (List ℤ))) (document : Json) : Prop :=
  ∃ mappings others, HeaderOf document { header with mappings := mappings } ∧
    Spells mappings others ∧
    others.map (·.map fieldsWithoutPlace) = rows.map (·.map fieldsWithoutPlace)

/-- A document decodes when its segments are those of one that does, wherever they are in the
sources. -/
theorem exists_decodeMap_of_displaced {header : Header} {rows : List (List (List ℤ))}
    {document : Json} (hfits : ∀ spot ∈ Spot.ofRows [] rows, spot.Fits header)
    (h : Displaced header rows document) : ∃ entries, decodeMap document = .ok entries := by
  obtain ⟨mappings, others, hheader, hothers, hsame⟩ := h
  have hwithout :
      (Spot.ofRows [] others).map Spot.withoutPlace =
        (Spot.ofRows [] rows).map Spot.withoutPlace := by
    rw [← Spot.ofRows_withoutPlace, ← Spot.ofRows_withoutPlace, hsame]
  have hall : ∀ spot ∈ Spot.ofRows [] others, spot.Fits header := by
    intro spot hspot
    have hmem : spot.withoutPlace ∈ (Spot.ofRows [] others).map Spot.withoutPlace :=
      List.mem_map_of_mem hspot
    rw [hwithout] at hmem
    obtain ⟨given, hgiven, hequal⟩ := List.mem_map.mp hmem
    rw [← Spot.fits_withoutPlace_iff, ← hequal, Spot.fits_withoutPlace_iff]
    exact hfits given hgiven
  -- The header of the document has the same tables, and a segment fits tables.
  refine ⟨_, decodeMap_eq_ok_iff.mpr ⟨_, others, hheader, hothers, fun spot hspot => ?_,
    Entry.sort_sortedBy _⟩⟩
  obtain ⟨hcount, hcolumn, hsource, hname⟩ := hall spot hspot
  exact ⟨hcount, hcolumn, hsource, hname⟩

/-- **Places in the sources are decoded as they are.**  When a document decodes, the entries that have
a source are at places in it exactly when no sum of lines or of columns in the sources is below zero
at a segment with a source.  Such sums are no reason to refuse a document: every other with the same
tables and segments decodes too, wherever its segments are in the sources. -/
theorem decodeMap_inSource_iff {document : Json} {entries : List Entry}
    (h : decodeMap document = .ok entries) :
    ∃ header rows, HeaderOf document header ∧ Spells header.mappings rows ∧
      ((∀ e ∈ entries, e.source.isSome → e.InSource) ↔
        ∀ spot ∈ Spot.ofRows [] rows, (spot.entry header).source.isSome → spot.InSource) ∧
      ∀ other, Displaced header rows other → ∃ others, decodeMap other = .ok others := by
  obtain ⟨header, rows, hheader, hrows, hfits, hsorted⟩ := decodeMap_eq_ok_iff.mp h
  refine ⟨header, rows, hheader, hrows, ?_, fun other => exists_decodeMap_of_displaced hfits⟩
  rw [← entriesOf_inSource_iff]
  have hmem (e : Entry) : e ∈ entries ↔ e ∈ entriesOf header rows :=
    ⟨mem_of_filter_eq hsorted.stable, mem_of_filter_eq fun k => (hsorted.stable k).symm⟩
  exact forall_congr' fun e => by rw [hmem e]

/-! ### Two documents -/

theorem HeaderOf.unique {document : Json} {header other : Header} (h : HeaderOf document header)
    (hother : HeaderOf document other) : header = other :=
  Except.ok.inj ((readHeader_eq_ok.mpr h).symm.trans (readHeader_eq_ok.mpr hother))

theorem Spells.unique {mappings : Text} {rows others : List (List (List ℤ))}
    (h : Spells mappings rows) (hother : Spells mappings others) : rows = others := by
  have hfields : Relator.RightUnique fun text fields => Vlq.decode text = .ok fields :=
    fun _ _ _ hfirst hsecond => Except.ok.inj (hfirst.symm.trans hsecond)
  have hrow : Relator.RightUnique fun line row => SpellsRow (segmentsOf line) row :=
    fun _ _ _ hfirst hsecond => List.right_unique_forall₂' hfields hfirst hsecond
  exact List.right_unique_forall₂' hrow h hother

/-- A map of two lines, the second one line down and one column on in the source. -/
def level : Document := ⟨"out", "", ["s"], [], "AAAA;AACC".toList⟩

/-- The same map, but the second line is one line up and one column back. -/
def sinking : Document := { level with mappings := "AAAA;AADD".toList }

theorem decodeMap_inSource_iff_level :
    (∃ entries, decodeMap level.toJson = .ok entries ∧
      ∀ e ∈ entries, e.source.isSome → e.InSource) ∧
    Displaced ⟨level.mappings, [some "s"], []⟩ [[[0, 0, 0, 0]], [[0, 0, 1, 1]]] sinking.toJson ∧
    ∃ others, decodeMap sinking.toJson = .ok others := by
  have hdecoded : decodeMap level.toJson = .ok [⟨1, 0, some "s", some 1, some 0, none, by decide⟩,
      ⟨2, 0, some "s", some 2, some 1, none, by decide⟩] := by cbv
  have hlevel : Spells level.mappings [[[0, 0, 0, 0]], [[0, 0, 1, 1]]] := by
    have hcut : level.mappings.splitOn ';' = ["AAAA".toList, "AACC".toList] := by cbv
    rw [Spells, hcut]
    exact .cons (.cons rfl .nil) (.cons (.cons rfl .nil) .nil)
  have hsinking : Spells sinking.mappings [[[0, 0, 0, 0]], [[0, 0, -1, -1]]] := by
    have hcut : sinking.mappings.splitOn ';' = ["AAAA".toList, "AADD".toList] := by cbv
    rw [Spells, hcut]
    exact .cons (.cons rfl .nil) (.cons (.cons rfl .nil) .nil)
  have hdisplaced : Displaced ⟨level.mappings, [some "s"], []⟩ [[[0, 0, 0, 0]], [[0, 0, 1, 1]]]
      sinking.toJson :=
    ⟨sinking.mappings, _, readHeader_eq_ok.mp rfl, hsinking, rfl⟩
  obtain ⟨header, rows, hheader, hrows, hplaces, hothers⟩ := decodeMap_inSource_iff hdecoded
  obtain rfl : header = ⟨level.mappings, [some "s"], []⟩ := hheader.unique (readHeader_eq_ok.mp rfl)
  obtain rfl : rows = [[[0, 0, 0, 0]], [[0, 0, 1, 1]]] := hrows.unique hlevel
  exact ⟨⟨_, hdecoded, hplaces.mpr (by decide)⟩, hdisplaced, hothers _ hdisplaced⟩

/-- A document decodes to a place in front of its source. -/
theorem decodeMap_sinking : ∃ entries, decodeMap sinking.toJson = .ok entries ∧
    ∃ e ∈ entries, e.source = some "s" ∧ e.sourceLine = some 0 ∧ e.sourceColumn = some (-1) ∧
      ¬e.InSource := by
  have hdecoded : decodeMap sinking.toJson = .ok [⟨1, 0, some "s", some 1, some 0, none, by decide⟩,
      ⟨2, 0, some "s", some 0, some (-1), none, by decide⟩] := by cbv
  refine ⟨_, hdecoded, _, List.mem_cons_of_mem _ List.mem_cons_self, rfl, rfl, rfl, ?_⟩
  rintro ⟨_, _, ⟨⟩, ⟨⟩, hline, hcolumn⟩
  exact absurd hline (by decide)

end TracedText
