import TracedText.Proofs.Acceptance
import TracedText.Proofs.Lookups

/-! # Maps in normal form

The entries of any document that decodes are encoded again (`decodeMap_reencoded`).  What comes out is
a normal form: its entries are the old ones as `Entry.restored` leaves them, it is encoded as itself,
and lookups in it find what they found before.  For the tables and the segments are made of nothing
but what restoring an entry leaves as it is (`ofEntries_restored`), and a lookup only asks for the
generated position and for a source (`find?_restored`). -/

namespace TracedText

/-! ### Decoded entries -/

section
variable {document : Json} {entries : List Entry}

theorem Spot.entry_positioned (spot : Spot) (header : Header) : (spot.entry header).Positioned := by
  unfold Spot.entry
  split
  · exact fun h => absurd h Bool.false_ne_true
  · exact fun _ => ⟨rfl, rfl⟩

theorem decodeMap_ordered (h : decodeMap document = .ok entries) :
    entries.Pairwise fun a b => a.place ≤ b.place := by
  obtain ⟨_, _, _, _, _, hsorted⟩ := decodeMap_eq_ok_iff.mp h
  exact hsorted.ascending

theorem decodeMap_positioned (h : decodeMap document = .ok entries) :
    ∀ e ∈ entries, e.Positioned := by
  obtain ⟨header, rows, _, _, _, hsorted⟩ := decodeMap_eq_ok_iff.mp h
  intro e he
  obtain ⟨spot, _, rfl⟩ := List.mem_map.mp (mem_of_filter_eq hsorted.stable he)
  exact spot.entry_positioned header

end

/-! ### Restored entries -/

namespace Entry
variable (e : Entry)

@[simp] theorem restored_line (root : String) : (e.restored root).line = e.line := by
  unfold restored
  split <;> rfl

@[simp] theorem restored_column (root : String) : (e.restored root).column = e.column := by
  unfold restored
  split <;> rfl

@[simp] theorem restored_source : (e.restored "").source = e.source := by
  unfold restored
  split
  · rename_i hsource
    exact hsource.symm
  · rename_i source hsource
    exact hsource.symm

@[simp] theorem restored_usedName : (e.restored "").usedName = e.usedName := by
  cases hsource : e.source with
  | none => simp [usedName, hsource]
  | some source =>
      rw [usedName_of_source hsource, usedName_of_source (e.restored_source.trans hsource)]
      simp [restored, hsource, Option.filter_filter]

@[simp] theorem restored_segment (sources names : List String) :
    (e.restored "").segment sources names = e.segment sources names := by
  unfold segment
  rw [restored_column, restored_source, restored_usedName]
  cases hsource : e.source with
  | none => rfl
  | some source => simp [restored, hsource]

variable {e}

theorem restored_positioned (h : e.Positioned) : (e.restored "").Positioned := by
  unfold Positioned
  rw [restored_source]
  intro hsource
  obtain ⟨source, hsome⟩ := Option.isSome_iff_exists.mp hsource
  simpa [restored, hsome] using h hsource

theorem restored_of_source (h : e.source.isSome) :
    e.restored "" = { e with name := e.name.filter (· ≠ "") } := by
  obtain ⟨source, hsource⟩ := Option.isSome_iff_exists.mp h
  obtain ⟨line, column, _, sourceLine, sourceColumn, name, one_le_line⟩ := e
  cases hsource
  rfl

end Entry

section
variable {entries : List Entry}

theorem ordered_restored (h : entries.Pairwise fun a b => a.place ≤ b.place) :
    (entries.map (Entry.restored "")).Pairwise fun a b => a.place ≤ b.place := by
  rw [List.pairwise_map]
  simpa only [Entry.restored_place] using h

/-- **Restored entries make the document of the entries.** -/
theorem Document.ofEntries_restored {file root : String} {d : Document}
    (hordered : entries.Pairwise fun a b => a.place ≤ b.place)
    (h : ofEntries entries file root = .ok d) :
    ofEntries (entries.map (Entry.restored "")) file root = .ok d := by
  obtain ⟨hpositioned, rfl⟩ := ofEntries_eq_ok.mp h
  have hsources : sourceTable (entries.map (Entry.restored "")) = sourceTable entries := by
    simp [sourceTable, List.filterMap_map]
  have hnames : nameTable (entries.map (Entry.restored "")) = nameTable entries := by
    simp [nameTable, List.filterMap_map]
  have hcount : lineCount (entries.map (Entry.restored "")) = lineCount entries := by
    simp [lineCount, List.foldl_map]
  have hlines : segmentLines (entries.map (Entry.restored "")) = segmentLines entries := by
    simp [segmentLines, hsources, hnames, hcount, List.filter_map, Function.comp_def]
  refine ofEntries_eq_ok.mpr ⟨?_, ?_⟩
  · intro e he
    obtain ⟨given, hgiven, rfl⟩ := List.mem_map.mp he
    exact Entry.restored_positioned (hpositioned given hgiven)
  · rw [Entry.sort_of_ordered (ordered_restored hordered), Entry.sort_of_ordered hordered, hsources,
      hnames, hlines]

/-- **A lookup finds the restored entry among restored entries.** -/
theorem MapIndex.find?_restored (h : entries.Pairwise fun a b => a.place ≤ b.place)
    (line column : ℤ) :
    (MapIndex.mk (entries.map (Entry.restored ""))).find? line column =
      ((MapIndex.mk entries).find? line column).map
        fun e => { e with name := e.name.filter (· ≠ "") } := by
  rw [find?_eq_getLast? (ordered_restored h), find?_eq_getLast? h, List.filter_map,
    List.getLast?_map]
  simp only [Function.comp_def, Entry.restored_line, Entry.restored_column]
  cases (entries.filter fun e => e.line = line ∧ e.column ≤ column).getLast? with
  | none => rfl
  | some e =>
      by_cases hsource : e.source.isSome
      · simp [Option.filter, hsource, Entry.restored_of_source hsource]
      · simp [Option.filter, hsource]

end

/-! ### Documents -/

/-- **Encoding what was decoded normalises a map.**  Whatever document decodes, its entries make a
document; this decodes again, its entries make it once more, and its index finds at each position
what that of the given document finds there, except that an empty name is none. -/
theorem decodeMap_reencoded {document : Json} {entries : List Entry}
    (h : decodeMap document = .ok entries) (file : String) :
    ∃ d again given normal, Document.ofEntries entries file "" = .ok d ∧
      decodeMap d.toJson = .ok again ∧ Document.ofEntries again file "" = .ok d ∧
      MapIndex.ofDocument document = .ok given ∧ MapIndex.ofDocument d.toJson = .ok normal ∧
      ∀ line column, normal.find? line column =
        (given.find? line column).map fun e => { e with name := e.name.filter (· ≠ "") } := by
  have hordered := decodeMap_ordered h
  obtain ⟨d, hd⟩ : ∃ d, Document.ofEntries entries file "" = .ok d :=
    ⟨_, Document.ofEntries_eq_ok.mpr ⟨decodeMap_positioned h, rfl⟩⟩
  have hagain : decodeMap d.toJson = .ok ((Entry.sort entries).map (Entry.restored "")) :=
    decodeMap_of_lookup hd rfl
  rw [Entry.sort_of_ordered hordered] at hagain
  refine ⟨_, _, .ofEntries entries, .ofEntries (entries.map (Entry.restored "")), hd, hagain,
    Document.ofEntries_restored hordered hd, map_eq_ok.mpr ⟨entries, h, rfl⟩,
    map_eq_ok.mpr ⟨_, hagain, rfl⟩, ?_⟩
  intro line column
  unfold MapIndex.ofEntries
  rw [Entry.sort_of_ordered hordered, Entry.sort_of_ordered (ordered_restored hordered)]
  exact MapIndex.find?_restored hordered line column

/-- A document with a gap among its sources, an empty name, a source that is listed twice, and
segments whose columns descend. -/
def foreign : Json :=
  .obj [("mappings", .str "CAAAA,DCAAA"), ("version", .int 3), ("sourceRoot", .str "src"),
    ("sources", .arr [.null, .str "a", .str "a"]), ("names", .arr [.str ""])]

/-- The entries of the document. -/
def foreignEntries : List Entry :=
  [⟨1, 0, some "src/a", some 1, some 0, some "", le_refl 1⟩,
    ⟨1, 1, none, some 1, some 0, some "", le_refl 1⟩]

theorem decodeMap_foreign : decodeMap foreign = .ok foreignEntries := by
  have hsort : Entry.sort foreignEntries.reverse = foreignEntries := by
    simp [Entry.sort, foreignEntries, List.mergeSort, Entry.le]
  unfold decodeMap
  refine bind_eq_ok.mpr ⟨_, rfl, bind_eq_ok.mpr ⟨foreignEntries.reverse, rfl, ?_⟩⟩
  exact congrArg Except.ok hsort

theorem decodeMap_reencoded_foreign :
    decodeMap foreign = .ok foreignEntries ∧
      ∃ d again, Document.ofEntries foreignEntries "out" "" = .ok d ∧
        decodeMap d.toJson = .ok again ∧ Document.ofEntries again "out" "" = .ok d := by
  obtain ⟨d, again, _, _, hd, hagain, hsame, _⟩ := decodeMap_reencoded decodeMap_foreign "out"
  exact ⟨decodeMap_foreign, d, again, hd, hagain, hsame⟩

end TracedText
