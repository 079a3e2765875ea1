import Mathlib
import TracedText.Proofs.Coordinates
import TracedText.Proofs.Edits
import TracedText.Proofs.Files
import TracedText.Proofs.JsonDocuments
import TracedText.Proofs.Mappings
import TracedText.Proofs.Markers

/-! # Saved buffers come back

A consistent buffer that was saved is loaded again with its text and those of its points that have
a source (`load_save`).  The way there: the points make entries in the order of their positions,
each entry is found again as its point, the map is read as it was written, and the marker line that
names the map is taken out of the text. -/

namespace TracedText

/-! ### Points and entries -/

namespace Point

/-- The entry of a point that lies in a text. -/
def entryIn (text : Text) (p : Point) : Entry :=
  let place := ofLex (LineTable.lineColumn text p.offset.toNat)
  ⟨place.1, place.2, p.source, p.line, p.column,
    if p.name.toList.isEmpty then none else some p.name, Nat.le_add_left 1 _⟩

variable {text : Text} {p : Point}

theorem toEntry_eq_ok_iff {e : Entry} :
    p.toEntry (.ofText text .oneBasedLines) text = .ok e ↔ 0 ≤ p.offset ∧ e = p.entryIn text := by
  rw [toEntry]
  split
  · exact iff_of_false nofun fun h => absurd h.1 (by omega)
  · rename_i hoffset
    constructor
    · exact fun h => ⟨by omega, (Except.ok.inj h).symm⟩
    · exact fun h => congrArg Except.ok h.2.symm

theorem toEntry_eq_ok (h : 0 ≤ p.offset) :
    p.toEntry (.ofText text .oneBasedLines) text = .ok (p.entryIn text) :=
  toEntry_eq_ok_iff.mpr ⟨h, rfl⟩

theorem name_restored (name : String) :
    ((if name.toList.isEmpty then none else some name).filter (· ≠ "")).getD "" = name := by
  split
  · rename_i hempty
    exact (String.toList_eq_nil_iff.mp (List.isEmpty_iff.mp hempty)).symm
  · rename_i hname
    have hne : name ≠ "" := by
      rintro rfl
      exact hname rfl
    rw [Option.filter_some, if_pos (decide_eq_true hne), Option.getD_some]

theorem place_entryIn_le_iff {q : Point} (hp : 0 ≤ p.offset ∧ p.offset ≤ text.length)
    (hq : 0 ≤ q.offset ∧ q.offset ≤ text.length) :
    (p.entryIn text).place ≤ (q.entryIn text).place ↔ p.offset ≤ q.offset := by
  have hplace : (p.entryIn text).place ≤ (q.entryIn text).place ↔
      p.offset.toNat ≤ q.offset.toNat :=
    LineTable.lineColumn_le_iff text (by omega) (by omega)
  rw [hplace]
  omega

theorem map_entryIn_sort {points : List Point}
    (hinside : ∀ p ∈ points, 0 ≤ p.offset ∧ p.offset ≤ text.length) :
    (sort points).map (entryIn text) = Entry.sort (points.map (entryIn text)) := by
  apply List.map_mergeSort
  intro p hp q hq
  rw [Bool.eq_iff_iff, decide_eq_true_iff, Entry.le_iff_place]
  exact (place_entryIn_le_iff (hinside p hp) (hinside q hq)).symm

theorem toPoint?_entryIn (hinside : 0 ≤ p.offset ∧ p.offset ≤ text.length)
    (hpositioned : (p.entryIn text).Positioned) :
    ((p.entryIn text).restored "").toPoint? (.ofText text .oneBasedLines) text =
      .ok (if p.source.isSome then some p else none) := by
  obtain ⟨offset, source, line, column, name⟩ := p
  cases source with
  | none => rfl
  | some source =>
      obtain ⟨hline, hcolumn⟩ := hpositioned rfl
      obtain ⟨line, rfl⟩ := Option.isSome_iff_exists.mp hline
      obtain ⟨column, rfl⟩ := Option.isSome_iff_exists.mp hcolumn
      obtain ⟨n, rfl⟩ := Int.eq_ofNat_of_zero_le hinside.1
      have hn : n ≤ text.length := Int.ofNat_le.mp hinside.2
      have hoffset := LineTable.offsetOfUnits_lineColumn text hn
      have hname := name_restored name
      have hroot : underRoot "" source = source := rfl
      simp only [Entry.restored, entryIn, Entry.toPoint?, Int.toNat_natCast, hroot, hoffset, hname]
      have hmin : min (n : ℤ) text.length = n := min_eq_left hinside.2
      show Except.ok (some (Point.mk (min (n : ℤ) text.length) _ _ _ _)) = _
      rw [hmin]
      rfl

end Point

namespace Buffer
variable {b : Buffer}

/-- The entries of the points of any buffer are those of the points in order; there are none when a
point stands in front of the text. -/
theorem entries_eq_ok {entries : List Entry} : b.entries = .ok entries ↔
    (∀ p ∈ b.points, 0 ≤ p.offset) ∧
      entries = (Point.sort b.points).map (Point.entryIn b.text) := by
  have hheld : (if Point.inOrder b.points then b.points else Point.sort b.points) =
      Point.sort b.points := by
    split
    · rename_i hordered
      exact (Point.sort_of_ordered (Point.inOrder_iff.mp hordered)).symm
    · rfl
  have hmem : (∀ p ∈ Point.sort b.points, 0 ≤ p.offset) ↔ ∀ p ∈ b.points, 0 ≤ p.offset := by
    simp only [Point.mem_sort]
  rw [Buffer.entries, hheld, ← hmem]
  exact mapM_eq_ok_map fun _ _ => Point.toEntry_eq_ok_iff

theorem entries_eq_map (h : b.Consistent) :
    b.entries = .ok (b.points.map (Point.entryIn b.text)) :=
  entries_eq_ok.mpr
    ⟨fun p hp => (h.inside p hp).1, by rw [Point.sort_of_ordered h.ordered]⟩

theorem pointsOf_entries (h : b.Consistent)
    (hpositioned : ∀ e ∈ b.points.map (Point.entryIn b.text), e.Positioned) :
    pointsOf b.text ((b.points.map (Point.entryIn b.text)).map (Entry.restored "")) =
      .ok (b.points.map fun p => if p.source.isSome then some p else none) := by
  rw [pointsOf, List.map_map, List.mapM_map]
  apply mapM_ok_map
  intro p hp
  exact Point.toPoint?_entryIn (h.inside p hp) (hpositioned _ (List.mem_map_of_mem hp))

theorem sort_entries (h : b.Consistent) :
    Entry.sort (b.points.map (Point.entryIn b.text)) = b.points.map (Point.entryIn b.text) := by
  rw [← Point.map_entryIn_sort h.inside, Point.sort_of_ordered h.ordered]

theorem toDocument_eq (h : ∀ p ∈ b.points, 0 ≤ p.offset ∧ p.offset ≤ b.text.length)
    (file : String) : b.toDocument file =
      (Document.ofEntries (b.points.map (Point.entryIn b.text)) file "").mapError .position := by
  have hentries : b.entries = .ok ((Point.sort b.points).map (Point.entryIn b.text)) :=
    entries_eq_ok.mpr ⟨fun p hp => (h p hp).1, rfl⟩
  rw [toDocument, hentries, Point.map_entryIn_sort h, ← Document.ofEntries_sort]
  rfl

/-! ### Loading -/

/-- The points of a buffer that have a source. -/
def sourced (b : Buffer) : Buffer := ⟨b.text, b.points.filter (·.source.isSome)⟩

theorem sourced_consistent (h : b.Consistent) : b.sourced.Consistent :=
  ⟨h.ordered.filter _, fun p hp => h.inside p (List.mem_filter.mp hp).1⟩

/-- A warning tells how many values without a source there are, unless there are none. -/
theorem skippedWarnings_eq {α : Type} (source : α → Option String) (point : α → Point)
    (target : Path) (values : List α) :
    skippedWarnings target
        (values.map fun a => if (source a).isSome then some (point a) else none) =
      if values.countP (fun a => (source a).isNone) = 0 then []
      else [.skipped (values.countP fun a => (source a).isNone) target.toString] := by
  have hcount : (values.map fun a => if (source a).isSome then some (point a) else none).countP
      (·.isNone) = values.countP fun a => (source a).isNone := by
    rw [List.countP_map]
    refine List.countP_congr fun a _ => ?_
    cases hsource : source a <;> simp [hsource]
  rw [skippedWarnings, hcount]
  split
  · rw [if_pos ‹_›]
  · rw [if_neg ‹_›]

theorem loadMarked_eq_ok {d : Disk} {dialect : Json.Dialect} {p target : Path} {m : Marker}
    {stored : Text} (h : b.Consistent) (hstrip : Marker.strip stored m.start m.stop = .ok b.text)
    (htarget : m.target p = .ok target)
    (hpositioned : ∀ e ∈ b.points.map (Point.entryIn b.text), e.Positioned)
    (hentries : loadEntries d dialect target =
      .ok ((b.points.map (Point.entryIn b.text)).map (Entry.restored ""))) :
    loadMarked d dialect p stored m =
      .ok (b.sourced, if b.points.countP (·.source.isNone) = 0 then []
        else [.skipped (b.points.countP (·.source.isNone)) target.toString]) := by
  have hpoints : ((b.points.map fun p => if p.source.isSome then some p else none).filterMap id) =
      b.sourced.points := by
    rw [List.filterMap_map]
    exact congrFun List.filterMap_eq_filter b.points
  have hsourced : ofPoints b.text b.sourced.points = .ok b.sourced :=
    ofPoints_of_consistent (sourced_consistent h)
  rw [← skippedWarnings_eq Point.source id]
  refine bind_eq_ok.mpr ⟨b.text, mapError_eq_ok.mpr hstrip, ?_⟩
  refine bind_eq_ok.mpr ⟨target, htarget, bind_eq_ok.mpr ⟨_, hentries, ?_⟩⟩
  refine bind_eq_ok.mpr ⟨_, mapError_eq_ok.mpr (pointsOf_entries h hpositioned), ?_⟩
  refine bind_eq_ok.mpr ⟨b.sourced, mapError_eq_ok.mpr ?_, rfl⟩
  rw [hpoints]
  exact hsourced

end Buffer

/-! ### Map files -/

namespace Document
variable (d : Document)

theorem keys_nodup :
    ["version", "file", "sourceRoot", "sources", "names", "mappings"].Nodup := by decide

theorem fits_toJson {dialect : Json.Dialect} (h : ∀ most ∈ dialect.maxDigits, 1 ≤ most)
    (room : ℕ) : Json.Fits dialect (room + 2) d.toJson := by
  have hstrings (table : List String) : Json.Fits dialect (room + 1) (.arr (table.map .str)) := by
    refine .arr _ ?_
    intro item hitem
    obtain ⟨s, _, rfl⟩ := List.mem_map.mp hitem
    exact .str s
  have hversion : Json.Fits dialect (room + 1) (.int formatVersion) :=
    .int _ (by simp [Json.fits64, formatVersion]) h
  refine .obj _ keys_nodup ?_
  simp only [List.mem_cons, List.not_mem_nil, or_false]
  rintro field (rfl | rfl | rfl | rfl | rfl | rfl)
  · exact hversion
  · exact .str _
  · exact .str _
  · exact hstrings d.sources
  · exact hstrings d.names
  · exact .str _

theorem sortKeys_toJson :
    ∃ fields, d.toJson.sortKeys = .obj fields ∧ readHeader (.obj fields) = readHeader d.toJson := by
  have hstrings (table : List String) :
      Json.sortKeysItems (table.map .str) = table.map .str := by
    rw [Json.sortKeysItems_eq_map, List.map_map]
    rfl
  have hsorted : d.toJson.sortKeys = .obj (Json.sortFields
      [("version", .int formatVersion), ("file", .str d.file), ("sourceRoot", .str d.sourceRoot),
        ("sources", .arr (d.sources.map .str)), ("names", .arr (d.names.map .str)),
        ("mappings", .str (String.ofList d.mappings))]) := by
    simp only [toJson, Json.sortKeys, Json.sortKeysFields, hstrings]
  refine ⟨_, hsorted, readHeader_congr ?_⟩
  apply Json.lookup_sortFields
  exact keys_nodup

theorem depthOfItems_strings (table : List String) : Json.depthOfItems (table.map .str) = 0 := by
  induction table with
  | nil => rfl
  | cons s table ih =>
      rw [List.map_cons, Json.depthOfItems, ih]
      rfl

theorem depth_strings_le (table : List String) : (Json.arr (table.map .str)).depth ≤ 1 := by
  rw [Json.depth, depthOfItems_strings]
  split <;> omega

/-- A document is written by both dialects. -/
theorem write_toJson {writer : Json.Dialect} (hwriter : writer ∈ [Json.Dialect.strict, .lenient])
    (pretty : Bool) : ∃ t, Json.write writer pretty d.toJson = .ok t := by
  have hdepth : d.toJson.depth ≤ 2 := by
    have hsources := depth_strings_le d.sources
    have hnames := depth_strings_le d.names
    simp only [toJson, Json.depth, Json.depthOfFields] at hsources hnames ⊢
    omega
  have hlevels : ∀ most ∈ writer.writeDepth, d.toJson.depth ≤ most := by
    simp only [List.mem_cons, List.not_mem_nil, or_false] at hwriter
    rcases hwriter with rfl | rfl
    · intro most hmost
      rw [← Option.some_inj.mp hmost]
      omega
    · exact nofun
  exact ⟨_, Json.write_of_fits pretty (d.fits_toJson (by decide) 0) hlevels⟩

theorem fits_reader {reader : Json.Dialect} (hreader : reader ∈ [Json.Dialect.strict, .lenient]) :
    Json.Fits reader reader.readDepth d.toJson := by
  simp only [List.mem_cons, List.not_mem_nil, or_false] at hreader
  rcases hreader with rfl | rfl
  · exact d.fits_toJson (by decide) 1022
  · exact d.fits_toJson (by decide) 986

end Document

/-- A document of entries that was written is loaded as the entries, whichever dialects write and
read. -/
theorem loadEntries_write {d : Disk} {writer reader : Json.Dialect}
    (hreader : reader ∈ [Json.Dialect.strict, .lenient]) {entries : List Entry} {file : String}
    {document : Document} (hdocument : Document.ofEntries entries file "" = .ok document)
    {pretty : Bool} {map : Text} (hwrite : Json.write writer pretty document.toJson = .ok map)
    {p : Path} (hread : d.read p = .ok map.toUtf8) :
    loadEntries d reader p = .ok ((Entry.sort entries).map (Entry.restored "")) := by
  obtain ⟨fields, hsorted, hheader⟩ := document.sortKeys_toJson
  rw [loadEntries, hread]
  simp only [Json.read_write (document.fits_reader hreader) hwrite, hsorted,
    decodeMap_of_lookup hdocument hheader]
  rfl

/-! ### Saving -/

namespace Medium
variable {m : Medium} {d stored : Disk} {writer : Json.Dialect} {pretty : Bool} {p : Path} {t : Text}

theorem encode_eq_ok {bytes : ByteArray} :
    m.encode t = .ok bytes ↔ m.encodes t = true ∧ bytes = t.toUtf8 := by
  unfold encode
  split_ifs with h
  · exact ⟨fun hbytes => ⟨h, (Except.ok.inj hbytes).symm⟩, fun hbytes => by rw [hbytes.2]⟩
  · exact ⟨nofun, fun hbytes => absurd hbytes.1 h⟩

theorem writeText_eq_ok (h : m.writeText d p t = (.ok (), stored)) :
    ∃ ready, d.Grows ready ∧ ready.put p t.toUtf8 = .ok stored := by
  obtain ⟨bytes, ready, hbytes, hgrows, hput⟩ := write_eq_ok h
  rw [(encode_eq_ok.mp hbytes).2] at hput
  exact ⟨ready, hgrows, hput⟩

theorem writeJson_of_spelled {value : Json} (hspelled : Json.write writer pretty value = .ok t) :
    m.writeJson d writer pretty p value =
      ((m.writeText d p t).1.map fun _ => t, (m.writeText d p t).2) := by
  have hbytes : ((Json.write writer pretty value).mapError SaveError.json >>= m.encode) =
      m.encode t := by
    rw [hspelled]
    rfl
  rw [writeJson, hbytes, hspelled]
  rfl

theorem writeJson_eq_ok {value : Json} (h : m.writeJson d writer pretty p value = (.ok t, stored)) :
    ∃ ready, d.Grows ready ∧ Json.write writer pretty value = .ok t ∧
      ready.put p t.toUtf8 = .ok stored := by
  obtain ⟨ended, hended, hspelled⟩ := bind_eq_ok.mp (congrArg Prod.fst h)
  have hspelled := mapError_eq_ok.mp hspelled
  rw [writeJson_of_spelled hspelled] at h
  obtain ⟨hresult, hstored⟩ := Prod.mk.inj h
  obtain ⟨_, hwritten, -⟩ := map_eq_ok.mp hresult
  obtain ⟨ready, hgrows, hput⟩ := writeText_eq_ok (Prod.ext hwritten hstored)
  exact ⟨ready, hgrows, hspelled, hput⟩

end Medium

namespace Buffer
variable {b : Buffer} {m : Medium} {d stored : Disk} {writer : Json.Dialect} {pretty : Bool}
  {p : Path}

/-- A save that succeeds put the marked text and then, beside it, the map. -/
theorem save_eq_ok {files : Text × Text} (h : b.save m d writer pretty p = (.ok files, stored)) :
    ∃ (front : List String) (name : String) (document : Document) (opened made ready : Disk)
      (map : Text), p = ⟨p.root, front ++ [name]⟩ ∧ b.toDocument name = .ok document ∧
      opened.put p (b.markedText (name ++ mapSuffix)).toUtf8 = .ok made ∧
      made.Extends ready ∧ Json.write writer pretty document.toJson = .ok map ∧
      ready.put ⟨p.root, front ++ [name ++ mapSuffix]⟩ map.toUtf8 = .ok stored := by
  unfold save at h
  split at h
  · exact nomatch h
  · rename_i name hname
    obtain ⟨front, hparts⟩ := List.getLast?_eq_some_iff.mp hname
    split at h
    · exact nomatch h
    · rename_i document hdocument
      dsimp only at h
      split at h
      · exact nomatch h
      · rename_i made hwrite
        obtain ⟨opened, -, hput⟩ := Medium.writeText_eq_ok hwrite
        obtain ⟨hresult, hstored⟩ := Prod.mk.inj h
        obtain ⟨map, hmap, -⟩ := map_eq_ok.mp hresult
        obtain ⟨ready, hgrows, hspelled, hbeside⟩ :=
          Medium.writeJson_eq_ok (Prod.ext hmap hstored)
        rw [Path.withName, hparts, List.dropLast_concat] at hbeside
        exact ⟨front, name, document, opened, made, ready, map,
          by rw [← hparts], hdocument, hput, hgrows.extends, hspelled, hbeside⟩

/-- What a document that was made holds: the entries of the points, each of which has a full
position if it has a source. -/
theorem toDocument_eq_ok (h : b.Consistent) {file : String} {document : Document}
    (hdocument : b.toDocument file = .ok document) :
    Document.ofEntries (b.points.map (Point.entryIn b.text)) file "" = .ok document ∧
      ∀ e ∈ b.points.map (Point.entryIn b.text), e.Positioned := by
  rw [toDocument_eq h.inside, mapError_eq_ok] at hdocument
  exact ⟨hdocument, (Document.ofEntries_eq_ok.mp hdocument).1⟩

theorem name_ne_mapName (name : String) : name ≠ name ++ mapSuffix := by
  intro h
  have hsize := congrArg String.length h
  have hsuffix : mapSuffix.length = 4 := rfl
  rw [String.length_append] at hsize
  omega

theorem terminator_notMem_mapName {name : String}
    (h : ∀ c ∈ name.toList, isTerminator c = false) :
    ∀ c ∈ (name ++ mapSuffix).toList, isTerminator c = false := by
  intro c hc
  have hsuffix : mapSuffix.toList = ['.', 'm', 'a', 'p'] := rfl
  rw [String.toList_append, hsuffix] at hc
  simp only [List.mem_append, List.mem_cons, List.not_mem_nil, or_false] at hc
  rcases hc with hc | rfl | rfl | rfl | rfl
  · exact h c hc
  all_goals rfl

/-- The map that a text at a path names by the path's own name stands beside the resolved path. -/
theorem target_mapName {q : Path} {name : String} (hslash : '/' ∉ name.toList) (start stop : ℕ) :
    Marker.target ⟨name ++ mapSuffix, start, stop⟩ q =
      .ok (q.resolve.withName (name ++ mapSuffix)) := by
  have hlist : (name ++ mapSuffix).toList = name.toList ++ ['.', 'm', 'a', 'p'] :=
    String.toList_append
  have hslash : '/' ∉ (name ++ mapSuffix).toList := by
    rw [hlist, List.mem_append, not_or]
    exact ⟨hslash, by decide⟩
  have hne : (name ++ mapSuffix).toList ≠ [] := by simp [hlist]
  have hdot : (name ++ mapSuffix).toList ≠ ['.'] := by
    intro h
    have hlength := congrArg List.length h
    rw [hlist, List.length_append] at hlength
    simp at hlength
  rw [Marker.target, if_neg (by simpa using hne), Path.ofString_name hslash hne hdot]
  rfl

/-- **A buffer that was saved is loaded again** with its text and with its points, except those
without a source, of which a warning tells the number.  A path without a root is taken in a
directory that has one. -/
theorem load_save (hb : b.Consistent) (htext : ¬ Marker.opening <:+: b.text)
    {directory path name : String} (hdirectory : (Path.ofString directory).root ≠ .relative)
    (hname : (Path.within directory path).name? = some name)
    (hline : ∀ c ∈ name.toList, isTerminator c = false)
    {reader : Json.Dialect} (hreader : reader ∈ [Json.Dialect.strict, .lenient])
    {files : Text × Text}
    (hsave : b.save m d writer pretty (.within directory path) = (.ok files, stored)) :
    load stored reader (.within directory path) =
      .ok (⟨b.text, b.points.filter (·.source.isSome)⟩,
        if b.points.countP (·.source.isNone) = 0 then []
        else [.skipped (b.points.countP (·.source.isNone))
          ((Path.within directory path).resolve.withName (name ++ mapSuffix)).toString]) := by
  obtain ⟨front, found, document, opened, made, ready, map, hp, hdocument, hput, hready, hwrite,
    hbeside⟩ := save_eq_ok hsave
  have hslash : '/' ∉ name.toList :=
    Path.slash_notMem_of_mem_within (List.mem_of_getLast? hname)
  have hroot := Path.within_root hdirectory path
  generalize Path.within directory path = p at *
  obtain ⟨root, parts⟩ := p
  obtain rfl : parts = front ++ [found] := (Path.mk.inj hp).2
  obtain rfl : found = name := by simpa [Path.name?] using hname
  obtain ⟨hentries, hpositioned⟩ := toDocument_eq_ok hb hdocument
  obtain ⟨htextRead, hmapRead⟩ :=
    Disk.read_stored hput hready hbeside (name_ne_mapName found) hroot
  have htextLoaded : loadText stored ⟨root, front ++ [found]⟩ =
      .ok (b.markedText (found ++ mapSuffix)) := loadText_of_read htextRead
  have hmarker := Marker.find?_stored htext (terminator_notMem_mapName hline)
  have hloaded := loadEntries_write hreader hentries hwrite hmapRead
  rw [sort_entries hb] at hloaded
  refine bind_eq_ok.mpr ⟨_, htextLoaded, ?_⟩
  rw [markedText, hmarker]
  have htarget := target_mapName (q := ⟨root, front ++ [found]⟩) hslash
  exact loadMarked_eq_ok hb (Marker.strip_stored _ _) (htarget _ _) hpositioned hloaded

/-- A clef, which takes two code units, and a carriage return, with a point between them and a point
without a source at the end. -/
def clef : Buffer :=
  ⟨['𝄞', '\r'], [⟨1, some "x", some 1, some (-3), "f"⟩, ⟨2, none, none, none, "n"⟩]⟩

theorem save_clef : ∃ files stored,
    clef.save .plain (.withDirectory []) .strict true (.within "/" "a") = (.ok files, stored) := by
  let document : Document := ⟨"a", "", ["x"], ["f"], "EAAHA;A".toList⟩
  let made : Disk := Disk.set (.withDirectory []) ["a"] (.file (clef.markedText "a.map").toUtf8)
  have hpath : Path.within "/" "a" = ⟨.single, ["a"]⟩ := by cbv
  have hdocument : clef.toDocument "a" = .ok document := by cbv
  have hwrite : Medium.plain.writeText (.withDirectory []) ⟨.single, ["a"]⟩
      (clef.markedText "a.map") = (.ok (), made) := rfl
  have hwriter : Json.Dialect.strict ∈ [Json.Dialect.strict, .lenient] := by decide
  obtain ⟨map, hmap⟩ := document.write_toJson hwriter true
  have hput : Medium.plain.writeText made ⟨.single, ["a.map"]⟩ map =
      (.ok (), made.set ["a.map"] (.file map.toUtf8)) := rfl
  have hjson : Medium.plain.writeJson made .strict true ⟨.single, ["a.map"]⟩ document.toJson =
      (.ok map, made.set ["a.map"] (.file map.toUtf8)) := by
    rw [Medium.writeJson_of_spelled hmap, hput]
    rfl
  refine ⟨(clef.markedText "a.map", map), made.set ["a.map"] (.file map.toUtf8), ?_⟩
  have hname : Path.name? ⟨.single, ["a"]⟩ = some "a" := rfl
  have hsuffix : "a" ++ mapSuffix = "a.map" := rfl
  have hbeside : Path.withName ⟨.single, ["a"]⟩ "a.map" = ⟨.single, ["a.map"]⟩ := rfl
  rw [hpath, save, hname]
  simp only [hdocument, hsuffix, hwrite, hbeside, hjson]
  rfl

theorem load_save_clef : ∃ files stored,
    clef.save .plain (.withDirectory []) .strict true (.within "/" "a") = (.ok files, stored) ∧
      load stored .lenient (.within "/" "a") =
        .ok (⟨clef.text, [⟨1, some "x", some 1, some (-3), "f"⟩]⟩, [.skipped 1 "/a.map"]) := by
  obtain ⟨files, stored, hsave⟩ := save_clef
  have hconsistent : clef.Consistent := ⟨by decide, by decide⟩
  have hname : (Path.within "/" "a").name? = some "a" := by cbv
  have hline : ∀ c ∈ "a".toList, isTerminator c = false := by
    intro c hc
    rw [List.mem_singleton.mp hc]
    rfl
  have hdirectory : (Path.ofString "/").root ≠ .relative := by decide
  have hreader : Json.Dialect.lenient ∈ [Json.Dialect.strict, .lenient] := by decide
  have hloaded := load_save hconsistent (by decide) hdirectory hname hline hreader hsave
  refine ⟨files, stored, hsave, hloaded.trans ?_⟩
  cbv

end Buffer

end TracedText
