import TracedText.Map.Decode
import TracedText.Map.Encode
import TracedText.Proofs.Outcomes
import TracedText.Proofs.Quantities
import TracedText.Proofs.Sorting

/-! # Encoded maps decode

A map document that is made of entries decodes to these entries in the order of their generated
positions (`decodeMap_ofEntries`).  The cursor of the encoder and that of the decoder agree in front
of every segment: `decodeLine_encodeLine` is the induction over one line, and
`decodeLines_encodeLines` over the lines.  The rest shows that indexes lead back to the strings they
stand for (`tableItem?_idxOf`), that the lines together hold every entry once
(`flatMap_filter_range'`), and that the header of the document is read as it was written
(`readHeader_toJson`). -/

namespace TracedText

/-! ### Tables -/

theorem mem_firstUses {value : String} {values : List String} :
    value ∈ firstUses values ↔ value ∈ values := by
  induction values with
  | nil => rfl
  | cons first rest ih =>
      rw [firstUses, List.mem_cons, List.mem_cons, List.mem_filter, ih]
      by_cases h : value = first
      · simp [h]
      · simp [h, bne_iff_ne]

/-- The index of a string in a table leads to its image in the table of images. -/
theorem tableItem?_idxOf {table : List String} {value : String} (h : value ∈ table)
    (image : String → Option String) :
    tableItem? (table.map image) (table.idxOf value : ℤ) = some (image value) := by
  have hlt : table.idxOf value < table.length := List.idxOf_lt_length_iff.mpr h
  have hnonneg : ¬((table.idxOf value : ℤ) < 0) := by omega
  rw [tableItem?, if_neg hnonneg, Int.toNat_natCast, List.getElem?_map,
    List.getElem?_eq_getElem hlt, List.getElem_idxOf hlt, Option.map_some]

/-! ### One line -/

section
variable {header : Header} {line : ℕ} {one_le_line : 1 ≤ line}

theorem readSegment_encode (c : Cursor) (s : Segment) :
    readSegment line c (Vlq.encode (c.fields s)) = .ok s := by
  unfold readSegment
  rw [Vlq.decode_encode]
  simp only [Cursor.segment?_fields]

/-- **One line decodes as it was encoded**, and leaves both cursors at the same values. -/
theorem decodeLine_encodeLine {α : Type} {segment : α → Segment} {entry : α → Entry}
    {values : List α}
    (h : ∀ a ∈ values, (segment a).toEntry header line one_le_line = .ok (entry a)) (c : Cursor) :
    decodeLine header line one_le_line c (c.encodeLine (values.map segment)).1 =
      .ok (values.map entry, (c.encodeLine (values.map segment)).2) := by
  induction values generalizing c with
  | nil => rfl
  | cons a rest ih =>
      have hrest := ih (fun b hb => h b (List.mem_cons_of_mem a hb)) (c.after (segment a))
      rw [List.map_cons, Cursor.encodeLine, decodeLine, readSegment_encode]
      refine bind_eq_ok.mpr ⟨segment a, rfl, ?_⟩
      refine bind_eq_ok.mpr ⟨entry a, h a List.mem_cons_self, ?_⟩
      exact bind_eq_ok.mpr ⟨_, hrest, rfl⟩

end

/-- Every text of a line spells the fields of some segment. -/
theorem eq_encode_of_mem_encodeLine {segments : List Segment} {c : Cursor} {text : Text}
    (h : text ∈ (c.encodeLine segments).1) :
    ∃ field fields, text = Vlq.encode (field :: fields) := by
  induction segments generalizing c with
  | nil => cases h
  | cons s rest ih =>
      rw [Cursor.encodeLine] at h
      rcases List.mem_cons.mp h with rfl | h
      · exact ⟨_, _, rfl⟩
      · exact ih h

theorem splitOn_line (c : Cursor) (segments : List Segment) :
    ((([','].intercalate (c.encodeLine segments).1).splitOn ',').filter
      fun segment => !segment.isEmpty) = (c.encodeLine segments).1 := by
  have hspelled : ∀ text ∈ (c.encodeLine segments).1, text ≠ [] ∧ ',' ∉ text := by
    intro text htext
    obtain ⟨field, fields, rfl⟩ := eq_encode_of_mem_encodeLine htext
    exact ⟨Vlq.encode_cons_ne_nil field fields, Vlq.notMem_encode (by decide) _⟩
  cases htexts : (c.encodeLine segments).1 with
  | nil => rfl
  | cons text rest =>
      rw [htexts] at hspelled
      rw [List.splitOn_intercalate ',' (fun t ht => (hspelled t ht).2) (List.cons_ne_nil _ _),
        List.filter_eq_self]
      intro t ht
      simpa using (hspelled t ht).1

/-! ### All lines -/

/-- **The lines decode as they were encoded.** -/
theorem decodeLines_encodeLines {α : Type} {header : Header} {segment : α → Segment}
    {entry : α → Entry} {group : ℕ → List α} (count : ℕ) {line : ℕ} (one_le_line : 1 ≤ line)
    (h : ∀ k, ∀ hk : 1 ≤ k, ∀ a ∈ group k, (segment a).toEntry header k hk = .ok (entry a))
    (c : Cursor) :
    decodeLines header line one_le_line c
        (c.encodeLines ((List.range' line count).map fun k => (group k).map segment)) =
      .ok ((List.range' line count).flatMap fun k => (group k).map entry) := by
  induction count generalizing line c with
  | zero => rfl
  | succ count ih =>
      rw [List.range'_succ, List.map_cons, Cursor.encodeLines, decodeLines]
      simp only [splitOn_line]
      refine bind_eq_ok.mpr ⟨_, decodeLine_encodeLine (h line one_le_line) c.nextLine, ?_⟩
      refine bind_eq_ok.mpr ⟨_, ih (Nat.le_add_left 1 line) _, ?_⟩
      rw [List.flatMap_cons]
      rfl

theorem mem_intercalate {separator c : Char} {texts : List Text}
    (h : c ∈ [separator].intercalate texts) : c = separator ∨ ∃ text ∈ texts, c ∈ text := by
  induction texts with
  | nil => cases h
  | cons first rest ih =>
      cases rest with
      | nil =>
          rw [List.intercalate_singleton] at h
          exact Or.inr ⟨first, List.mem_cons_self, h⟩
      | cons second others =>
          rw [List.intercalate_cons_cons, List.mem_append, List.mem_append, List.mem_singleton] at h
          rcases h with (h | h) | h
          · exact Or.inr ⟨first, List.mem_cons_self, h⟩
          · exact Or.inl h
          · rcases ih h with h | ⟨text, htext, hc⟩
            · exact Or.inl h
            · exact Or.inr ⟨text, List.mem_cons_of_mem first htext, hc⟩

theorem semicolon_notMem_encodeLines {lines : List (List Segment)} {c : Cursor} {text : Text}
    (h : text ∈ c.encodeLines lines) : ';' ∉ text := by
  induction lines generalizing c with
  | nil => cases h
  | cons segments rest ih =>
      rw [Cursor.encodeLines] at h
      rcases List.mem_cons.mp h with rfl | h
      · intro hsemicolon
        rcases mem_intercalate hsemicolon with hcomma | ⟨part, hpart, hmem⟩
        · exact absurd hcomma (by decide)
        · obtain ⟨field, fields, rfl⟩ := eq_encode_of_mem_encodeLine hpart
          exact Vlq.notMem_encode (by decide) _ hmem
      · exact ih h

theorem encodeLines_length (c : Cursor) (lines : List (List Segment)) :
    (c.encodeLines lines).length = lines.length := by
  induction lines generalizing c with
  | nil => rfl
  | cons segments rest ih =>
      rw [Cursor.encodeLines, List.length_cons, List.length_cons, ih]

theorem splitOn_lines (c : Cursor) {lines : List (List Segment)} (h : lines ≠ []) :
    ([';'].intercalate (c.encodeLines lines)).splitOn ';' = c.encodeLines lines := by
  apply List.splitOn_intercalate ';' fun text htext => semicolon_notMem_encodeLines htext
  intro hnil
  have hlength := encodeLines_length c lines
  rw [hnil] at hlength
  exact h (List.eq_nil_of_length_eq_zero hlength.symm)

/-- Values in the order of keys, taken key by key, are all the values. -/
theorem flatMap_filter_range' {α : Type} {key : α → ℕ} (count : ℕ) {first : ℕ} {values : List α}
    (h : values.Pairwise fun a b => key a ≤ key b)
    (hrange : ∀ a ∈ values, first ≤ key a ∧ key a < first + count) :
    (List.range' first count).flatMap (fun k => values.filter fun a => key a == k) = values := by
  induction count generalizing first values with
  | zero =>
      cases values with
      | nil => rfl
      | cons a rest =>
          have := hrange a List.mem_cons_self
          omega
  | succ count ih =>
      have hparted : Parted (fun a => key a == first) values := by
        rw [Parted, List.pairwise_iff_getElem] at *
        intro i j hi hj hij hkey
        have := h i j hi hj hij
        have := (hrange values[i] (List.getElem_mem hi)).1
        rw [beq_iff_eq] at hkey ⊢
        omega
      have hbehind : ∀ a ∈ values.filter (fun a => !(key a == first)),
          first + 1 ≤ key a ∧ key a < first + 1 + count := by
        intro a ha
        obtain ⟨hmem, hne⟩ := List.mem_filter.mp ha
        have := hrange a hmem
        have hne : key a ≠ first := by simpa using hne
        omega
      rw [List.range'_succ, List.flatMap_cons]
      conv => rhs; rw [← filter_append_filter_of_parted hparted]
      rw [← ih (h.filter _) hbehind]
      congr 1
      apply List.flatMap_congr
      intro k hk
      have hfirst := (List.mem_range'_1.mp hk).1
      rw [List.filter_filter]
      apply List.filter_congr
      intro a _
      by_cases hkey : key a = k
      · have hne : k ≠ first := by omega
        simp [hkey, hne]
      · simp [hkey]

/-! ### Headers -/

/-- A source behind a root: the root and the source, with a slash between them unless the root is
empty or ends in one. -/
def underRoot (root source : String) : String :=
  if root = "" then source
  else if root.toList.getLast? = some '/' then root ++ source
  else root ++ "/" ++ source

theorem readHeader_congr {fields others : List (String × Json)}
    (h : ∀ key, fields.lookup key = others.lookup key) :
    readHeader (.obj fields) = readHeader (.obj others) := by
  simp only [readHeader, readRoot, readTable, Json.get?, h]
  rfl

theorem readTable_strings {fields : List (String × Json)} {key : String} {table : List String}
    (h : fields.lookup key = some (.arr (table.map .str))) :
    readTable (.obj fields) key = .ok (table.map some) := by
  simp only [readTable, Json.get?, h]
  rw [List.mapM_map]
  exact mapM_ok_map fun _ _ => rfl

theorem readRoot_string {fields : List (String × Json)} {root : String}
    (h : fields.lookup "sourceRoot" = some (.str root)) :
    ∃ front, readRoot (.obj fields) = .ok front ∧
      ∀ source, front ++ source = underRoot root source := by
  simp only [readRoot, Json.get?, h, Json.isEmpty, List.isEmpty_iff, String.toList_eq_nil_iff]
  by_cases hempty : root = ""
  · refine ⟨"", if_pos hempty, ?_⟩
    intro source
    rw [underRoot, if_pos hempty, String.empty_append]
  · rw [if_neg hempty]
    by_cases hslash : root.toList.getLast? = some '/'
    · refine ⟨root, by simp [hslash], ?_⟩
      intro source
      rw [underRoot, if_neg hempty, if_pos hslash]
    · refine ⟨root ++ "/", by simp [hslash], ?_⟩
      intro source
      rw [underRoot, if_neg hempty, if_neg hslash]

/-- **The header of a document is read as it was written**, each source behind the root. -/
theorem readHeader_toJson (d : Document) :
    readHeader d.toJson =
      .ok ⟨d.mappings, d.sources.map fun s => some (underRoot d.sourceRoot s),
        d.names.map some⟩ := by
  obtain ⟨front, hroot, hfront⟩ : ∃ front, readRoot d.toJson = .ok front ∧
      ∀ source, front ++ source = underRoot d.sourceRoot source := readRoot_string rfl
  have hsources : readTable d.toJson "sources" = .ok (d.sources.map some) := readTable_strings rfl
  have hnames : readTable d.toJson "names" = .ok (d.names.map some) := readTable_strings rfl
  unfold readHeader
  change (do
    let root ← readRoot d.toJson
    let sources ← readTable d.toJson "sources"
    let names ← readTable d.toJson "names"
    return (⟨(String.ofList d.mappings).toList, sources.map (Option.map (root ++ ·)),
      names⟩ : Header)) = _
  refine bind_eq_ok.mpr ⟨front, hroot, bind_eq_ok.mpr ⟨_, hsources, bind_eq_ok.mpr ⟨_, hnames, ?_⟩⟩⟩
  simp only [String.toList_ofList, List.map_map, Function.comp_def, Option.map_some, hfront]
  rfl

/-! ### Entries -/

namespace Entry

/-- An entry that has a source has a full position in it. -/
def Positioned (e : Entry) : Prop :=
  e.source.isSome → e.sourceLine.isSome ∧ e.sourceColumn.isSome

instance (e : Entry) : Decidable e.Positioned :=
  inferInstanceAs (Decidable (e.source.isSome → e.sourceLine.isSome ∧ e.sourceColumn.isSome))

/-- The entry that comes back: without a source only the generated position is kept; a source stands
behind the root, and an empty name is none. -/
def restored (root : String) (e : Entry) : Entry :=
  match e.source with
  | none => .bare e.line e.column e.one_le_line
  | some source =>
    { e with source := some (underRoot root source), name := e.name.filter (· ≠ "") }

/-- The segment of an entry, all of whose strings are in the tables. -/
def segment (sources names : List String) (e : Entry) : Segment :=
  ⟨e.column, e.source.map fun source =>
    ⟨sources.idxOf source, e.sourceLine.getD 0 - 1, e.sourceColumn.getD 0,
      e.usedName.map (names.idxOf ·)⟩⟩

variable {e : Entry} {sources names : List String}

theorem restored_place (root : String) : (e.restored root).place = e.place := by
  unfold restored
  cases e.source <;> rfl

theorem usedName_of_source {source : String} (h : e.source = some source) :
    e.usedName = e.name.filter (· ≠ "") := by
  unfold usedName
  rw [h]
  cases e.name with
  | none => rfl
  | some name => by_cases hname : name = "" <;> simp [hname, Option.filter]

theorem toSegment_eq_ok {s : Segment} :
    e.toSegment sources names = .ok s ↔ e.Positioned ∧ s = e.segment sources names := by
  unfold toSegment Positioned segment
  cases hsource : e.source with
  | none => exact ⟨fun h => ⟨nofun, (Except.ok.inj h).symm⟩, fun h => congrArg Except.ok h.2.symm⟩
  | some source =>
      cases hline : e.sourceLine with
      | none => exact ⟨nofun, fun h => absurd (h.1 rfl).1 Bool.false_ne_true⟩
      | some line =>
          cases hcolumn : e.sourceColumn with
          | none => exact ⟨nofun, fun h => absurd (h.1 rfl).2 Bool.false_ne_true⟩
          | some column =>
              constructor
              · exact fun h => ⟨fun _ => ⟨rfl, rfl⟩, (Except.ok.inj h).symm⟩
              · exact fun h => congrArg Except.ok h.2.symm

/-- **The segment of an entry leads back to the entry.** -/
theorem toEntry_segment (he : e.Positioned) {root : String} {mappings : Text}
    (hsource : ∀ source, e.source = some source → source ∈ sources)
    (hname : ∀ name, e.usedName = some name → name ∈ names) (one_le_line : 1 ≤ e.line) :
    (e.segment sources names).toEntry
        ⟨mappings, sources.map fun s => some (underRoot root s), names.map some⟩ e.line
        one_le_line =
      .ok (e.restored root) := by
  have hcolumn : ¬((e.column : ℤ) < 0) := by omega
  unfold Segment.toEntry segment restored
  simp only [hcolumn, if_false, Int.toNat_natCast]
  cases hs : e.source with
  | none => rfl
  | some source =>
      obtain ⟨hline, hcol⟩ := he (by rw [hs]; rfl)
      obtain ⟨line, hline⟩ := Option.isSome_iff_exists.mp hline
      obtain ⟨column, hcol⟩ := Option.isSome_iff_exists.mp hcol
      have hitem := tableItem?_idxOf (hsource source hs) fun s => some (underRoot root s)
      simp only [Option.map_some, hitem, hline, hcol, Option.getD_some, Int.sub_add_cancel,
        ← usedName_of_source hs]
      cases hn : e.usedName with
      | none => rfl
      | some name =>
          have hname := tableItem?_idxOf (hname name hn) some
          simp only [Option.map_some, readName, hname]
          rfl

end Entry

/-! ### Documents -/

theorem le_foldl_max (entries : List Entry) (count : ℕ) :
    count ≤ entries.foldl (fun n entry => max n entry.line) count ∧
      ∀ e ∈ entries, e.line ≤ entries.foldl (fun n entry => max n entry.line) count := by
  induction entries generalizing count with
  | nil => exact ⟨le_refl _, nofun⟩
  | cons first rest ih =>
      obtain ⟨hcount, hrest⟩ := ih (max count first.line)
      refine ⟨le_trans (le_max_left _ _) hcount, ?_⟩
      intro e he
      rcases List.mem_cons.mp he with rfl | he
      · exact le_trans (le_max_right _ _) hcount
      · exact hrest e he

namespace Document

/-- The lines of segments of entries that are in order. -/
def segmentLines (ordered : List Entry) : List (List Segment) :=
  (List.range' 1 (lineCount ordered)).map fun k =>
    (ordered.filter fun e => e.line == k).map
      (Entry.segment (sourceTable ordered) (nameTable ordered))

theorem segmentLines_ne_nil (ordered : List Entry) : segmentLines ordered ≠ [] := by
  have hcount : 1 ≤ lineCount ordered := (le_foldl_max ordered 1).1
  intro h
  have hlength := congrArg List.length h
  rw [segmentLines, List.length_map, List.length_range', List.length_nil] at hlength
  omega

theorem segments_eq_ok {entries : List Entry} {found : List (ℕ × Segment)} :
    segments entries = .ok found ↔ (∀ e ∈ entries, e.Positioned) ∧
      found = entries.map fun e =>
        (e.line, e.segment (sourceTable entries) (nameTable entries)) := by
  apply mapM_eq_ok_map
  intro e s
  rw [bind_eq_ok]
  constructor
  · rintro ⟨segment, hsegment, hs⟩
    obtain ⟨hpositioned, rfl⟩ := Entry.toSegment_eq_ok.mp hsegment
    exact ⟨hpositioned, (Except.ok.inj hs).symm⟩
  · rintro ⟨hpositioned, rfl⟩
    exact ⟨_, Entry.toSegment_eq_ok.mpr ⟨hpositioned, rfl⟩, rfl⟩

theorem byLine_segments (entries : List Entry) :
    byLine (lineCount entries) (entries.map fun e =>
        (e.line, e.segment (sourceTable entries) (nameTable entries))) = segmentLines entries := by
  unfold byLine segmentLines
  apply List.map_congr_left
  intro k _
  rw [List.filter_map, List.map_map]
  rfl

theorem ofEntries_sort (entries : List Entry) (file sourceRoot : String) :
    ofEntries (Entry.sort entries) file sourceRoot = ofEntries entries file sourceRoot := by
  simp only [ofEntries, Entry.sort_sort]

theorem ofEntries_eq_ok {entries : List Entry} {file sourceRoot : String} {d : Document} :
    ofEntries entries file sourceRoot = .ok d ↔ (∀ e ∈ entries, e.Positioned) ∧
      d = ⟨file, sourceRoot, sourceTable (Entry.sort entries), nameTable (Entry.sort entries),
        [';'].intercalate (Cursor.start.encodeLines (segmentLines (Entry.sort entries)))⟩ := by
  have hmem : (∀ e ∈ Entry.sort entries, e.Positioned) ↔ ∀ e ∈ entries, e.Positioned := by
    simp only [Entry.mem_sort]
  unfold ofEntries
  rw [bind_eq_ok]
  constructor
  · rintro ⟨found, hfound, hd⟩
    obtain ⟨hpositioned, rfl⟩ := segments_eq_ok.mp hfound
    rw [byLine_segments] at hd
    exact ⟨hmem.mp hpositioned, (Except.ok.inj hd).symm⟩
  · rintro ⟨hpositioned, rfl⟩
    refine ⟨_, segments_eq_ok.mpr ⟨hmem.mpr hpositioned, rfl⟩, ?_⟩
    rw [byLine_segments]
    rfl

/-- The mappings of entries that are in order decode to these entries. -/
theorem decodeLines_segmentLines {ordered : List Entry}
    (h : ordered.Pairwise fun a b => a.place ≤ b.place) (hpositioned : ∀ e ∈ ordered, e.Positioned)
    {root : String} {mappings : Text} :
    decodeLines ⟨mappings, (sourceTable ordered).map fun s => some (underRoot root s),
        (nameTable ordered).map some⟩ 1 (le_refl 1) .start
        (Cursor.start.encodeLines (segmentLines ordered)) =
      .ok (ordered.map (Entry.restored root)) := by
  have hlines : ordered.Pairwise fun a b => a.line ≤ b.line := by
    apply h.imp
    intro a b hab
    have := (Entry.le_iff_place a b).mpr hab
    simp only [Entry.le, Bool.or_eq_true, Bool.and_eq_true, decide_eq_true_eq, beq_iff_eq] at this
    omega
  have hentries : ∀ k, ∀ hk : 1 ≤ k, ∀ e ∈ ordered.filter (fun e => e.line == k),
      (e.segment (sourceTable ordered) (nameTable ordered)).toEntry
        ⟨mappings, (sourceTable ordered).map fun s => some (underRoot root s),
          (nameTable ordered).map some⟩ k hk = .ok (e.restored root) := by
    intro k hk e he
    obtain ⟨hmem, hline⟩ := List.mem_filter.mp he
    obtain rfl : e.line = k := by simpa using hline
    apply Entry.toEntry_segment (hpositioned e hmem)
    · intro source hsource
      exact mem_firstUses.mpr (List.mem_filterMap.mpr ⟨e, hmem, hsource⟩)
    · intro name hname
      exact mem_firstUses.mpr (List.mem_filterMap.mpr ⟨e, hmem, hname⟩)
  unfold segmentLines
  rw [decodeLines_encodeLines _ (le_refl 1) hentries, ← List.map_flatMap,
    flatMap_filter_range' _ hlines]
  intro e he
  have := e.one_le_line
  have : e.line ≤ lineCount ordered := (le_foldl_max ordered 1).2 e he
  omega

end Document

/-- A document of entries, with its fields in any order, decodes to these entries. -/
theorem decodeMap_of_lookup {entries : List Entry} {file sourceRoot : String} {d : Document}
    (hd : Document.ofEntries entries file sourceRoot = .ok d) {fields : List (String × Json)}
    (hfields : readHeader (.obj fields) = readHeader d.toJson) :
    decodeMap (.obj fields) = .ok ((Entry.sort entries).map (Entry.restored sourceRoot)) := by
  obtain ⟨hpositioned, rfl⟩ := Document.ofEntries_eq_ok.mp hd
  have hordered := (Entry.sort_sortedBy entries).ascending
  have hpositioned : ∀ e ∈ Entry.sort entries, e.Positioned :=
    fun e he => hpositioned e (Entry.mem_sort.mp he)
  have hsorted : ((Entry.sort entries).map (Entry.restored sourceRoot)).Pairwise
      fun a b => a.place ≤ b.place := by
    rw [List.pairwise_map]
    simpa only [Entry.restored_place] using hordered
  unfold decodeMap
  refine bind_eq_ok.mpr ⟨_, hfields.trans (readHeader_toJson _), ?_⟩
  simp only [splitOn_lines _ (Document.segmentLines_ne_nil _)]
  refine bind_eq_ok.mpr ⟨_, Document.decodeLines_segmentLines hordered hpositioned, ?_⟩
  exact congrArg Except.ok (Entry.sort_of_ordered hsorted)

/-- **Decoding undoes encoding.** Entries of which those with a source have a full position make a
document, and it decodes to the entries in the stable order of their generated positions. -/
theorem decodeMap_ofEntries {entries : List Entry} (h : ∀ e ∈ entries, e.Positioned)
    (file sourceRoot : String) :
    ∃ d sorted, Document.ofEntries entries file sourceRoot = .ok d ∧
      SortedBy Entry.place entries sorted ∧
      decodeMap d.toJson = .ok (sorted.map (Entry.restored sourceRoot)) := by
  have hd : Document.ofEntries entries file sourceRoot = .ok _ :=
    Document.ofEntries_eq_ok.mpr ⟨h, rfl⟩
  exact ⟨_, Entry.sort entries, hd, Entry.sort_sortedBy entries, decodeMap_of_lookup hd rfl⟩

/-- Entries in no order: two at one position, an empty name, and one without a source. -/
def scattered : List Entry :=
  [⟨3, 2, some "b", some 7, some (-1), some "f", by decide⟩,
    ⟨2, 4, none, some 2, none, some "g", by decide⟩,
    ⟨3, 2, some "a", some 0, some 5, some "", by decide⟩]

theorem decodeMap_ofEntries_scattered :
    (∀ e ∈ scattered, e.Positioned) ∧
      ∃ d sorted, Document.ofEntries scattered "out" "src" = .ok d ∧
        SortedBy Entry.place scattered sorted ∧
        decodeMap d.toJson = .ok (sorted.map (Entry.restored "src")) :=
  ⟨by decide, decodeMap_ofEntries (by decide) "out" "src"⟩

end TracedText
