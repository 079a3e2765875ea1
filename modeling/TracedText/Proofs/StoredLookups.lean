import Mathlib.Data.List.Sort
import TracedText.Proofs.Loaders
import TracedText.Proofs.Origins
import TracedText.Proofs.Seams

/-! # Lookups in saved texts

A saved text is looked up with its marker line in it, but its map counts the lines of the text
without this line.  Both have the same lines up to the end of the text, since the line feed in front
of the marker ends a line behind it (`lineStarts_append_lineFeed`), so a lookup in the saved text
finds what it finds in the text (`trace?_save`).  There is one exception: a carriage return at the
end of the text and the line feed are one terminator, so that the end of the text is on the line of
the carriage return, and what the map tells about it is not found (`Text.seenAt`). -/

namespace TracedText

/-! ### A line feed behind a text -/

namespace Text
variable {s : Text} {n offset : ℕ}

/-- The offset whose line an offset is on when there is a line feed behind the text: the end of a
text that ends in a carriage return is on the line of the carriage return. -/
def seenAt (s : Text) (offset : ℕ) : ℕ :=
  if offset = s.length ∧ s.getLast? = some '\r' then offset - 1 else offset

theorem seenAt_eq (h : ¬(offset = s.length ∧ s.getLast? = some '\r')) :
    s.seenAt offset = offset := if_neg h

theorem seenAt_length (h : s.getLast? = some '\r') : s.seenAt s.length = s.length - 1 :=
  if_pos ⟨rfl, h⟩

theorem le_seenAt_iff (hn : 1 ≤ n) (h : offset ≤ s.length) :
    n ≤ s.seenAt offset ↔ n ≤ offset ∧ ¬(n = s.length ∧ s.getLast? = some '\r') := by
  by_cases hend : offset = s.length ∧ s.getLast? = some '\r'
  · obtain ⟨rfl, hlast⟩ := hend
    rw [seenAt_length hlast, and_iff_left hlast]
    omega
  · rw [seenAt_eq hend, iff_self_and]
    rintro hle ⟨rfl, hlast⟩
    exact hend ⟨le_antisymm h hle, hlast⟩

/-- A line feed behind a text moves no line, except that it takes the one behind a carriage return
at the end. -/
theorem breaksAt_append_lineFeed (rest : Text) (hn : n ≤ s.length) :
    BreaksAt (s ++ '\n' :: rest) n ↔
      s.BreaksAt n ∧ ¬(n = s.length ∧ s.getLast? = some '\r') := by
  have hfuses : s.Fuses ('\n' :: rest) ↔ s.getLast? = some '\r' := and_iff_left rfl
  rw [breaksAt_append_left hn, hfuses]

/-- **The lines of a text with a line feed behind it** start where those of the text do. -/
theorem lineStarts_append_lineFeed (rest : Text) (h : offset ≤ s.length) :
    (lineStarts (s ++ '\n' :: rest)).filter (fun start => start ≤ offset) =
      s.lineStarts.filter fun start => start ≤ s.seenAt offset := by
  refine ((lineStarts_pairwise _).filter _).eq_of_mem_iff ((lineStarts_pairwise _).filter _) ?_
  intro start
  rw [List.mem_filter, List.mem_filter, mem_lineStarts, mem_lineStarts, decide_eq_true_iff,
    decide_eq_true_iff]
  rcases Nat.eq_zero_or_pos start with rfl | hpos
  · simp
  rw [le_seenAt_iff hpos h, or_iff_right hpos.ne', or_iff_right hpos.ne']
  constructor
  · rintro ⟨hbreaks, hle⟩
    obtain ⟨hbreaks, hend⟩ := (breaksAt_append_lineFeed rest (hle.trans h)).mp hbreaks
    exact ⟨hbreaks, hle, hend⟩
  · rintro ⟨hbreaks, hle, hend⟩
    exact ⟨(breaksAt_append_lineFeed rest (hle.trans h)).mpr ⟨hbreaks, hend⟩, hle⟩

theorem unitColumn_append_left (rest : Text) (start : ℕ) (h : offset ≤ s.length) :
    unitColumn (s ++ rest) start offset = unitColumn s start offset := by
  rw [unitColumn_natCast, unitColumn_natCast, List.take_append_of_le_length h]

end Text

namespace LineTable
variable {s : Text} {offset : ℕ}

theorem startsUpTo_append_lineFeed (numbering : Numbering) (rest : Text) (h : offset ≤ s.length) :
    (ofText (s ++ '\n' :: rest) numbering).startsUpTo offset =
      (ofText s numbering).startsUpTo (s.seenAt offset) := by
  rw [startsUpTo_ofText, startsUpTo_ofText, Text.lineStarts_append_lineFeed rest h]

theorem lineIndex_append_lineFeed (numbering : Numbering) (rest : Text) (h : offset ≤ s.length) :
    (ofText (s ++ '\n' :: rest) numbering).lineIndex offset =
      (ofText s numbering).lineIndex (s.seenAt offset) := by
  rw [lineIndex, lineIndex, startsUpTo_append_lineFeed numbering rest h]

theorem lineStart_append_lineFeed (numbering : Numbering) (rest : Text) (h : offset ≤ s.length) :
    (ofText (s ++ '\n' :: rest) numbering).lineStart offset =
      (ofText s numbering).lineStart (s.seenAt offset) := by
  rw [lineStart, lineStart, startsUpTo_append_lineFeed numbering rest h]

end LineTable

/-! ### Lookups among the points of a buffer -/

namespace Buffer
variable {b : Buffer}

/-- The entries of the points of a buffer, as its map tells them. -/
def index (b : Buffer) : MapIndex := ⟨(b.points.map (Point.entryIn b.text)).map (Entry.restored "")⟩

theorem entries_ordered (h : b.Consistent) :
    (b.points.map (Point.entryIn b.text)).Pairwise fun e e' => e.place ≤ e'.place := by
  have hsorted := (Entry.sort_sortedBy (b.points.map (Point.entryIn b.text))).ascending
  rwa [sort_entries h] at hsorted

theorem ofEntries_index (h : b.Consistent) : MapIndex.ofEntries b.index.entries = b.index := by
  rw [MapIndex.ofEntries, index, Entry.sort_of_ordered (ordered_restored (entries_ordered h))]

/-- A lookup depends on the line and on which points of the line are not behind the column. -/
theorem find?_index_congr (h : b.Consistent) {line column column' : ℤ}
    (hsame : ∀ p ∈ b.points, (p.entryIn b.text).line = line →
      ((p.entryIn b.text).column ≤ column ↔ (p.entryIn b.text).column ≤ column')) :
    b.index.find? line column = b.index.find? line column' := by
  have hkept : (b.points.map (Point.entryIn b.text)).filter
        (fun e => e.line = line ∧ e.column ≤ column) =
      (b.points.map (Point.entryIn b.text)).filter
        fun e => e.line = line ∧ e.column ≤ column' := by
    refine List.filter_congr fun e he => ?_
    obtain ⟨p, hp, rfl⟩ := List.mem_map.mp he
    rw [decide_eq_decide]
    exact and_congr_right (hsame p hp)
  have hordered := entries_ordered h
  rw [index, MapIndex.find?_restored hordered, MapIndex.find?_restored hordered,
    MapIndex.find?_eq_getLast? hordered, MapIndex.find?_eq_getLast? hordered, hkept]

/-- No point on the line of a carriage return at the end of the text is behind it. -/
theorem entryIn_column_le (hlast : b.text.getLast? = some '\r') {p : Point}
    (hinside : 0 ≤ p.offset ∧ p.offset ≤ b.text.length)
    (hline : (p.entryIn b.text).line =
      (LineTable.ofText b.text .oneBasedLines).lineIndex (b.text.length - 1) + 1) :
    (p.entryIn b.text).column ≤ b.text.unitColumn
      ((LineTable.ofText b.text .oneBasedLines).lineStart (b.text.length - 1))
      ((b.text.length - 1 : ℕ) : ℤ) := by
  have hpos : 0 < b.text.length :=
    List.length_pos_iff.mpr fun hnil => by simp [hnil] at hlast
  have hbreaks : b.text.BreaksAt b.text.length := by
    rw [Text.BreaksAt, ← List.getLast?_eq_getElem?]
    exact ⟨hpos, Or.inr ⟨hlast, by simp⟩⟩
  have hindex : (LineTable.ofText b.text .oneBasedLines).lineIndex p.offset.toNat =
      (LineTable.ofText b.text .oneBasedLines).lineIndex (b.text.length - 1) :=
    Nat.add_right_cancel hline
  have hbefore : p.offset.toNat ≤ b.text.length - 1 := by
    by_contra hlt
    obtain hend : p.offset.toNat = b.text.length := by omega
    rw [hend] at hindex
    have hsame := (LineTable.lineIndex_eq_iff b.text .oneBasedLines (Nat.sub_le _ 1)).mp hindex.symm
    exact hsame b.text.length (le_refl _) (by omega) hbreaks
  have hsame := (LineTable.lineIndex_eq_iff b.text .oneBasedLines hbefore).mp hindex
  exact ((LineTable.column_le_iff b.text (by omega) (by omega)).mpr ⟨hbefore, hsame⟩).2

/-- **A lookup does not see what stands behind the text**, except that at the end of a text that
ends in a carriage return it sees the line of the carriage return. -/
theorem trace?_append_lineFeed (h : b.Consistent) (path path' : Option Path) (rest : Text)
    {offset : ℕ} (hoffset : offset ≤ b.text.length) :
    SourceFile.trace? ⟨path, b.text ++ '\n' :: rest, some b.index⟩ offset =
      SourceFile.trace? ⟨path', b.text, some b.index⟩ (b.text.seenAt offset : ℕ) := by
  rw [SourceFile.trace?_eq, SourceFile.trace?_eq,
    LineTable.lineIndex_append_lineFeed .oneBasedLines rest hoffset,
    LineTable.lineStart_append_lineFeed .oneBasedLines rest hoffset,
    Text.unitColumn_append_left _ _ hoffset]
  by_cases hend : offset = b.text.length ∧ b.text.getLast? = some '\r'
  · obtain ⟨rfl, hlast⟩ := hend
    rw [Text.seenAt_length hlast]
    refine congrArg Except.ok (find?_index_congr h fun p hp hline => ?_)
    have hcolumn := entryIn_column_le hlast (h.inside p hp) (by exact_mod_cast hline)
    have hstart := LineTable.lineStart_le b.text .oneBasedLines (b.text.length - 1)
    have hpos : 0 < b.text.length :=
      List.length_pos_iff.mpr fun hnil => by simp [hnil] at hlast
    have hlt := Text.unitColumn_lt hstart (Nat.sub_one_lt_of_lt hpos) (le_refl _)
    exact ⟨fun _ => by exact_mod_cast hcolumn, fun hle => hle.trans (by exact_mod_cast hlt.le)⟩
  · rw [Text.seenAt_eq hend]

/-! ### Saved buffers -/

theorem ofDocument_toDocument (h : b.Consistent) {file : String} {document : Document}
    (hdocument : b.toDocument file = .ok document) :
    MapIndex.ofDocument document.toJson = .ok b.index := by
  have hdecoded : decodeMap document.toJson = .ok ((Entry.sort _).map (Entry.restored "")) :=
    decodeMap_of_lookup (toDocument_eq_ok h hdocument).1 rfl
  rw [sort_entries h] at hdecoded
  exact map_eq_ok.mpr ⟨b.index.entries, hdecoded, ofEntries_index h⟩

section
variable {m : Medium} {d stored : Disk} {writer reader : Json.Dialect} {pretty : Bool}
  {directory path name : String} {files : Text × Text}

/-- What both loaders make of the files of a buffer that was saved. -/
theorem load_saved (hb : b.Consistent) (htext : ¬ Marker.opening <:+: b.text)
    (hdirectory : (Path.ofString directory).root ≠ .relative)
    (hname : (Path.within directory path).name? = some name)
    (hline : ∀ c ∈ name.toList, isTerminator c = false)
    (hreader : reader ∈ [Json.Dialect.strict, .lenient])
    (hsave : b.save m d writer pretty (.within directory path) = (.ok files, stored)) :
    (∃ document, b.toDocument name = .ok document) ∧
      (∃ warnings, load stored reader (.within directory path) = .ok (b.sourced, warnings)) ∧
      SourceFile.load stored reader (.within directory path) none =
        .ok ⟨some (.within directory path), b.markedText (name ++ mapSuffix), some b.index⟩ := by
  obtain ⟨front, found, document, opened, made, ready, map, hp, hdocument, hput, hready, hwrite,
    hbeside⟩ := save_eq_ok hsave
  have hslash : '/' ∉ name.toList :=
    Path.slash_notMem_of_mem_within (List.mem_of_getLast? hname)
  have hroot := Path.within_root hdirectory path
  generalize Path.within directory path = p at *
  obtain ⟨root, parts⟩ := p
  obtain rfl : parts = front ++ [found] := (Path.mk.inj hp).2
  obtain rfl : found = name := by simpa [Path.name?] using hname
  obtain ⟨hentries, hpositioned⟩ := toDocument_eq_ok hb hdocument
  obtain ⟨htextRead, hmapRead⟩ :=
    Disk.read_stored hput hready hbeside (name_ne_mapName found) hroot
  have htextLoaded : loadText stored ⟨root, front ++ [found]⟩ =
      .ok (b.markedText (found ++ mapSuffix)) := loadText_of_read htextRead
  have hmarker := Marker.find?_stored htext (terminator_notMem_mapName hline)
  have hloaded := loadEntries_write hreader hentries hwrite hmapRead
  rw [sort_entries hb] at hloaded
  have htarget := target_mapName (q := ⟨root, front ++ [found]⟩) hslash
  refine ⟨⟨document, hdocument⟩, ?_, ?_⟩
  · rw [load_of_find? reader htextLoaded hmarker]
    exact ⟨_, loadMarked_eq_ok hb (Marker.strip_stored _ _) (htarget _ _) hpositioned hloaded⟩
  · rw [SourceFile.load_of_find? reader htextLoaded hmarker]
    rw [Marker.entries_eq_ok.mpr ⟨htarget _ _, hloaded⟩]
    exact congrArg (fun index => Except.ok (SourceFile.mk _ _ (some index))) (ofEntries_index hb)

/-- **A lookup in a saved text finds what one in the text finds**, except that at the end of a text
that ends in a carriage return it finds what is found in front of the carriage return. -/
theorem trace?_save (hb : b.Consistent) (htext : ¬ Marker.opening <:+: b.text)
    (hdirectory : (Path.ofString directory).root ≠ .relative)
    (hname : (Path.within directory path).name? = some name)
    (hline : ∀ c ∈ name.toList, isTerminator c = false)
    (hreader : reader ∈ [Json.Dialect.strict, .lenient])
    (hsave : b.save m d writer pretty (.within directory path) = (.ok files, stored)) :
    ∃ file loaded warnings document index,
      SourceFile.load stored reader (.within directory path) none = .ok file ∧
      load stored reader (.within directory path) = .ok (loaded, warnings) ∧
      loaded.text = b.text ∧ b.toDocument name = .ok document ∧
      MapIndex.ofDocument document.toJson = .ok index ∧
      ∀ offset ≤ b.text.length, ∃ found, file.trace? offset = .ok found ∧
        SourceFile.trace? ⟨none, loaded.text, some index⟩ (b.text.seenAt offset : ℕ) =
          .ok found := by
  obtain ⟨⟨document, hdocument⟩, ⟨warnings, hloaded⟩, hfile⟩ :=
    load_saved hb htext hdirectory hname hline hreader hsave
  refine ⟨_, b.sourced, warnings, document, b.index, hfile, hloaded, rfl, hdocument,
    ofDocument_toDocument hb hdocument, fun offset hoffset => ?_⟩
  refine ⟨_, ?_, SourceFile.trace?_eq none b.index _⟩
  rw [markedText, trace?_append_lineFeed hb _ none _ hoffset]
  exact SourceFile.trace?_eq none b.index _

end

/-- What the point between the clef and the carriage return tells. -/
def clefOrigin : Option String × Option ℤ × Option ℤ × Option String :=
  (some "x", some 1, some (-3), some "f")

theorem clef_consistent : clef.Consistent := ⟨by decide, by decide⟩

theorem name?_within_a : (Path.within "/" "a").name? = some "a" := by cbv

theorem terminator_notMem_a : ∀ c ∈ "a".toList, isTerminator c = false := by
  intro c hc
  rw [List.mem_singleton.mp hc]
  rfl

theorem trace?_save_clef : ∃ files stored,
    clef.save .plain (.withDirectory []) .strict true (.within "/" "a") = (.ok files, stored) ∧
      ∃ file, SourceFile.load stored .lenient (.within "/" "a") none = .ok file ∧
        (file.trace? 1).map (·.map Entry.origin) = .ok (some clefOrigin) ∧
        (file.trace? 2).map (·.map Entry.origin) = .ok (some clefOrigin) := by
  obtain ⟨files, stored, hsave⟩ := save_clef
  have hdirectory : (Path.ofString "/").root ≠ .relative := by decide
  have hreader : Json.Dialect.lenient ∈ [Json.Dialect.strict, .lenient] := by decide
  obtain ⟨file, loaded, _, document, index, hfile, _, htext, hdocument, hindex, hfound⟩ :=
    trace?_save clef_consistent (by decide) hdirectory name?_within_a terminator_notMem_a hreader
      hsave
  obtain rfl : clef.index = index :=
    Except.ok.inj ((ofDocument_toDocument clef_consistent hdocument).symm.trans hindex)
  have hone : (SourceFile.trace? ⟨none, clef.text, some clef.index⟩ 1).map
      (·.map Entry.origin) = .ok (some clefOrigin) := by cbv
  obtain ⟨found, hbefore, hfoundBefore⟩ := hfound 1 (by decide)
  obtain ⟨found', hend, hfoundEnd⟩ := hfound 2 (by decide)
  rw [htext] at hfoundBefore hfoundEnd
  refine ⟨files, stored, hsave, file, hfile, ?_, ?_⟩
  · exact hbefore.trans hfoundBefore.symm ▸ hone
  · exact hend.trans hfoundEnd.symm ▸ hone

/-- At the end of the text the saved text has the entry of the carriage return, where the text has
none. -/
theorem trace?_save_clef_end : clef.Consistent ∧ ¬ Marker.opening <:+: clef.text ∧
    (∀ p ∈ clef.points, p.source.isSome → p.line.isSome ∧ p.column.isSome) ∧
    clef.text.length = 2 ∧ ∃ files stored,
      clef.save .plain (.withDirectory []) .strict true (.within "/" "a") = (.ok files, stored) ∧
      ∃ file loaded warnings document index,
        SourceFile.load stored .lenient (.within "/" "a") none = .ok file ∧
        load stored .lenient (.within "/" "a") = .ok (loaded, warnings) ∧
        clef.toDocument "a" = .ok document ∧ MapIndex.ofDocument document.toJson = .ok index ∧
        (file.trace? 2).map (·.map Entry.origin) = .ok (some clefOrigin) ∧
        SourceFile.trace? ⟨none, loaded.text, some index⟩ 2 = .ok none := by
  obtain ⟨files, stored, hsave⟩ := save_clef
  have hdirectory : (Path.ofString "/").root ≠ .relative := by decide
  have hreader : Json.Dialect.lenient ∈ [Json.Dialect.strict, .lenient] := by decide
  obtain ⟨⟨document, hdocument⟩, ⟨warnings, hloaded⟩, hfile⟩ :=
    load_saved clef_consistent (by decide) hdirectory name?_within_a terminator_notMem_a hreader
      hsave
  refine ⟨clef_consistent, by decide, by decide, rfl, files, stored, hsave, ?_⟩
  refine ⟨_, clef.sourced, warnings, document, clef.index, hfile, hloaded, hdocument,
    ofDocument_toDocument clef_consistent hdocument, ?_, ?_⟩
  · cbv
  · cbv

end Buffer

end TracedText
