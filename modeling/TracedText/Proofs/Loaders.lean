import Mathlib.Data.List.Basic
import TracedText.Proofs.Columns
import TracedText.Proofs.Markers
import TracedText.Proofs.NormalForms
import TracedText.Source.File

/-! # Two loaders of one file

A text and its map are loaded as a buffer and as a source file, and both see the same: they fail
alike, or both succeed with the same positions in sources (`load_agree`).  The buffer is made of
points, and no entry of a map that decodes, however far from the text, fails to have one in the text
(`toPoint?_of_positioned`, `ofPoints_pointIn`). -/

namespace TracedText

/-! ### Places of entries -/

/-- The point of an entry in a text: as many characters behind the start of its line as cover its
column, but not behind the end of the text. -/
def Entry.pointIn (text : Text) (e : Entry) : Point :=
  let start := (LineTable.ofText text .oneBasedLines).offsetOf e.line 0
  ⟨min (start + Text.advance e.column (text.drop start)) text.length, e.source, e.sourceLine,
    e.sourceColumn, e.name.getD ""⟩

theorem Entry.pointIn_inside (text : Text) (e : Entry) :
    0 ≤ (e.pointIn text).offset ∧ (e.pointIn text).offset ≤ text.length := by
  have := Text.advance_nonneg e.column
    (text.drop ((LineTable.ofText text .oneBasedLines).offsetOf e.line 0))
  simp only [pointIn]
  omega

theorem Entry.toPoint?_of_positioned {e : Entry} (h : e.Positioned) (text : Text) :
    e.toPoint? (.ofText text .oneBasedLines) text =
      .ok (if e.source.isSome then some (e.pointIn text) else none) := by
  obtain ⟨line, column, source, sourceLine, sourceColumn, name, one_le_line⟩ := e
  cases source with
  | none => rfl
  | some source =>
      obtain ⟨hline, hcolumn⟩ := h rfl
      obtain ⟨sourceLine, rfl⟩ := Option.isSome_iff_exists.mp hline
      obtain ⟨sourceColumn, rfl⟩ := Option.isSome_iff_exists.mp hcolumn
      simp only [toPoint?, Text.offsetOfUnits_eq]
      rfl

/-! ### Loading entries -/

/-- The failure comes from the files: it is none of putting a point into a text. -/
def LoadError.OfFiles : LoadError → Prop
  | .range _ => False
  | .position _ => False
  | _ => True

section
variable {d : Disk} {dialect : Json.Dialect} {p : Path} {error : LoadError}

theorem loadText_ofFiles (h : loadText d p = .error error) : error.OfFiles := by
  rcases bind_eq_error.mp h with h | ⟨bytes, _, h⟩
  · obtain ⟨_, _, rfl⟩ := mapError_eq_error.mp h
    trivial
  · split at h
    · cases h
    · cases h
      trivial

theorem target_ofFiles {m : Marker} (h : m.target p = .error error) : error.OfFiles := by
  unfold Marker.target at h
  split at h
  · cases h
    trivial
  · cases h

theorem loadEntries_ofFiles (h : loadEntries d dialect p = .error error) : error.OfFiles := by
  unfold loadEntries at h
  split at h
  · cases h
    trivial
  · cases h
    trivial
  · cases h
    trivial
  · split at h
    · cases h
      trivial
    · cases h
      trivial
    · obtain ⟨_, _, rfl⟩ := mapError_eq_error.mp h
      trivial

theorem loadEntries_positioned {entries : List Entry} (h : loadEntries d dialect p = .ok entries) :
    ∀ e ∈ entries, e.Positioned := by
  unfold loadEntries at h
  split at h
  · cases h
  · cases h
  · cases h
  · split at h
    · cases h
    · cases h
    · exact decodeMap_positioned (mapError_eq_ok.mp h)

end

/-! ### Following markers -/

/-- The entries of the map that a marker in the text at a path names, with the path of the map. -/
def Marker.entries (m : Marker) (d : Disk) (dialect : Json.Dialect) (p : Path) :
    Except LoadError (Path × List Entry) := do
  let target ← m.target p
  return (target, ← loadEntries d dialect target)

section
variable {d : Disk} {dialect : Json.Dialect} {p target : Path} {text : Text} {m : Marker}
  {entries : List Entry}

theorem Marker.entries_eq_ok : m.entries d dialect p = .ok (target, entries) ↔
    m.target p = .ok target ∧ loadEntries d dialect target = .ok entries := by
  constructor
  · intro h
    obtain ⟨_, htarget, h⟩ := bind_eq_ok.mp h
    obtain ⟨_, hentries, h⟩ := bind_eq_ok.mp h
    obtain ⟨rfl, rfl⟩ := Prod.mk.inj (Except.ok.inj h)
    exact ⟨htarget, hentries⟩
  · rintro ⟨htarget, hentries⟩
    exact bind_eq_ok.mpr ⟨target, htarget, bind_eq_ok.mpr ⟨entries, hentries, rfl⟩⟩

theorem Marker.entries_ofFiles {error : LoadError} (h : m.entries d dialect p = .error error) :
    error.OfFiles := by
  rcases bind_eq_error.mp h with h | ⟨target, _, h⟩
  · exact target_ofFiles h
  · rcases bind_eq_error.mp h with h | ⟨entries, _, h⟩
    · exact loadEntries_ofFiles h
    · cases h

theorem Buffer.load_of_find? (dialect : Json.Dialect) (htext : loadText d p = .ok text)
    (hmarker : Marker.find? text = some m) :
    Buffer.load d dialect p = Buffer.loadMarked d dialect p text m := by
  rw [Buffer.load, htext]
  simp only [bind, Except.bind, hmarker]

theorem SourceFile.load_of_find? (dialect : Json.Dialect) (htext : loadText d p = .ok text)
    (hmarker : Marker.find? text = some m) :
    SourceFile.load d dialect p none = (m.entries d dialect p).map fun found =>
      ⟨some p, text, some (.ofEntries found.2)⟩ := by
  rw [SourceFile.load, htext, Marker.entries]
  simp only [bind, Except.bind, SourceFile.mapPath?, hmarker]
  cases m.target p with
  | error error => rfl
  | ok target =>
      simp only [Except.map]
      cases loadEntries d dialect target <;> rfl

end

/-! ### Loading buffers -/

/-- The position in a source that a point tells, with its name. -/
def Point.told (p : Point) : Option String × Option ℤ × Option ℤ × String :=
  (p.source, p.line, p.column, p.name)

/-- The position in a source that an entry tells, with its name; a missing name is empty. -/
def Entry.told (e : Entry) : Option String × Option ℤ × Option ℤ × String :=
  (e.source, e.sourceLine, e.sourceColumn, e.name.getD "")

namespace Buffer
variable {d : Disk} {dialect : Json.Dialect} {p : Path} {text : Text} {entries : List Entry}

theorem pointsOf_of_positioned (h : ∀ e ∈ entries, e.Positioned) (text : Text) :
    pointsOf text entries =
      .ok (entries.map fun e => if e.source.isSome then some (e.pointIn text) else none) :=
  mapM_ok_map fun e he => e.toPoint?_of_positioned (h e he) text

theorem ofPoints_pointIn (text : Text) (entries : List Entry) :
    ofPoints text (entries.map (Entry.pointIn text)) =
      .ok ⟨text, Point.sort (entries.map (Entry.pointIn text))⟩ := by
  apply ofPoints_eq_ok
  intro p hp
  obtain ⟨e, _, rfl⟩ := List.mem_map.mp hp
  exact e.pointIn_inside text

/-- A buffer is made of what its marker names, with one point for each entry that has a source. -/
theorem loadMarked_eq {m : Marker} {body : Text}
    (hstrip : Marker.strip text m.start m.stop = .ok body) :
    loadMarked d dialect p text m = (m.entries d dialect p).map fun found =>
      (⟨body, Point.sort ((found.2.filter (·.source.isSome)).map (Entry.pointIn body))⟩,
        skippedWarnings found.1 (found.2.map fun e =>
          if e.source.isSome then some (e.pointIn body) else none)) := by
  rw [loadMarked, hstrip, Marker.entries]
  simp only [Except.mapError, bind, Except.bind]
  cases m.target p with
  | error error => rfl
  | ok target =>
  cases hentries : loadEntries d dialect target with
  | error error => simp only [hentries, Except.map]
  | ok entries =>
  have hkept : (entries.map fun e =>
        if e.source.isSome then some (e.pointIn body) else none).filterMap id =
      (entries.filter (·.source.isSome)).map (Entry.pointIn body) := by
    rw [List.filterMap_map, ← List.filterMap_eq_map, List.filterMap_filter]
    rfl
  simp only [hentries, pointsOf_of_positioned (loadEntries_positioned hentries), hkept,
    ofPoints_pointIn]
  rfl

end Buffer

/-- **The two loaders agree.**  Both fail with the same failure, which comes from the files, or both
succeed: then there is a map exactly when there is a marker, the points tell what the entries with a
source tell, and without a map the buffer is the text. -/
theorem load_agree (d : Disk) (dialect : Json.Dialect) (p : Path) :
    (∃ error, Buffer.load d dialect p = .error error ∧
      SourceFile.load d dialect p none = .error error ∧ error.OfFiles) ∨
    ∃ b warnings file, Buffer.load d dialect p = .ok (b, warnings) ∧
      SourceFile.load d dialect p none = .ok file ∧ loadText d p = .ok file.code ∧
      (file.index.isSome ↔ Marker.opening <:+: file.code) ∧
      (file.index = none → b = .ofText file.code) ∧
      ∀ index ∈ file.index, (b.points.map Point.told).Perm
        ((index.entries.filter (·.source.isSome)).map Entry.told) := by
  cases htext : loadText d p with
  | error error =>
      exact .inl ⟨error, bind_eq_error.mpr (.inl htext), bind_eq_error.mpr (.inl htext),
        loadText_ofFiles htext⟩
  | ok text =>
  cases hmarker : Marker.find? text with
  | none =>
      have hplain : ¬ Marker.opening <:+: text := Marker.find?_eq_none_iff.mp hmarker
      refine .inr ⟨.ofText text, [], ⟨some p, text, none⟩, ?_, ?_, rfl, by simp [hplain],
        fun _ => rfl, nofun⟩
      · rw [Buffer.load, htext]
        simp only [bind, Except.bind, hmarker]
        rfl
      · rw [SourceFile.load, htext]
        simp only [bind, Except.bind, SourceFile.mapPath?, hmarker]
        rfl
  | some m =>
  have hmarked : Marker.opening <:+: text := by
    by_contra hplain
    exact nomatch hmarker.symm.trans (Marker.find?_eq_none_iff.mpr hplain)
  obtain ⟨body, hstrip⟩ := Marker.exists_strip hmarker
  rw [Buffer.load_of_find? dialect htext hmarker, Buffer.loadMarked_eq hstrip,
    SourceFile.load_of_find? dialect htext hmarker]
  cases hfound : m.entries d dialect p with
  | error error => exact .inl ⟨error, rfl, rfl, Marker.entries_ofFiles hfound⟩
  | ok found =>
  refine .inr ⟨_, _, _, rfl, rfl, rfl, by simp [hmarked], nofun, ?_⟩
  rintro index ⟨⟩
  have htold : ((found.2.filter (·.source.isSome)).map (Entry.pointIn body)).map Point.told =
      (found.2.filter (·.source.isSome)).map Entry.told := List.map_map
  refine ((List.mergeSort_perm _ _).map Point.told).trans ?_
  rw [htold]
  exact ((List.mergeSort_perm found.2 Entry.le).symm.filter _).map Entry.told

/-! ### A map from far away -/

/-- A letter, with the marker of a map behind it. -/
def letterFile (mapName : String) : Text := ['x'] ++ '\n' :: (Marker.line mapName ++ ['\n'])

/-- A map whose only entry lies far behind the letter. -/
def farMap : Text :=
  "\x7b\"version\":3,\"sources\":[\"s\"],\"names\":[],\"mappings\":\";;QAEA\"\x7d".toList

/-- A disk with two files of the letter, one of which names the map, and the other the first. -/
def farDisk : Disk :=
  (((Disk.withDirectory []).set ["a"] (.file (letterFile "m").toUtf8)).set ["m"]
    (.file farMap.toUtf8)).set ["b"] (.file (letterFile "a").toUtf8)

/-- The entry of the map. -/
def farEntry : Entry := ⟨3, 8, some "s", some 3, some 0, none, Nat.le_add_left 1 2⟩

theorem find?_letterFile (mapName : String) (h : ∀ c ∈ mapName.toList, isTerminator c = false) :
    Marker.find? (letterFile mapName) =
      some ⟨mapName, 2, 2 + (Marker.line mapName).length⟩ :=
  Marker.find?_stored (by decide) h

theorem Json.read_strict_toUtf8 (t : Text) : Json.read .strict t.toUtf8 = Json.parse .strict t := by
  simp only [Json.read, Json.Dialect.strict, Text.ofUtf8?_toUtf8]
  rfl

theorem load_farDisk : SourceFile.load farDisk .strict ⟨.single, ["a"]⟩ none =
    .ok ⟨some ⟨.single, ["a"]⟩, letterFile "m", some (.ofEntries [farEntry])⟩ := by
  have hread : farDisk.read ⟨.single, ["a"]⟩ = .ok (letterFile "m").toUtf8 := rfl
  have hbeside : farDisk.read ⟨.single, ["m"]⟩ = .ok farMap.toUtf8 := rfl
  have hmarker := find?_letterFile "m" (List.forall_mem_singleton.mpr rfl)
  have htarget (start stop : ℕ) :
      Marker.target ⟨"m", start, stop⟩ ⟨.single, ["a"]⟩ = .ok ⟨.single, ["m"]⟩ := by cbv
  have hmap : Json.read .strict farMap.toUtf8 = .ok (.obj [("version", .int 3),
      ("sources", .arr [.str "s"]), ("names", .arr []), ("mappings", .str ";;QAEA")]) := by
    rw [Json.read_strict_toUtf8]
    cbv
  rw [SourceFile.load_of_find? .strict (loadText_of_read hread) hmarker, Marker.entries, htarget]
  simp only [bind, Except.bind, loadEntries, hbeside, hmap]
  cbv

theorem load_farDisk_notJson : SourceFile.load farDisk .strict ⟨.single, ["b"]⟩ none =
    .error (.format (.notJson "/a"
      (.unread .strict (letterFile "m").toUtf8.data.toList .malformed))) := by
  have hread : farDisk.read ⟨.single, ["b"]⟩ = .ok (letterFile "a").toUtf8 := rfl
  have hbeside : farDisk.read ⟨.single, ["a"]⟩ = .ok (letterFile "m").toUtf8 := rfl
  have hmarker := find?_letterFile "a" (List.forall_mem_singleton.mpr rfl)
  have htarget (start stop : ℕ) :
      Marker.target ⟨"a", start, stop⟩ ⟨.single, ["b"]⟩ = .ok ⟨.single, ["a"]⟩ := by cbv
  have hletter : Json.read .strict (letterFile "m").toUtf8 = .error .malformed := by
    rw [Json.read_strict_toUtf8]
    cbv
  rw [SourceFile.load_of_find? .strict (loadText_of_read hread) hmarker, Marker.entries, htarget]
  simp only [bind, Except.bind, loadEntries, hbeside, hletter]
  rfl

theorem load_agree_farDisk :
    (∃ b warnings, Buffer.load farDisk .strict ⟨.single, ["a"]⟩ = .ok (b, warnings) ∧
      b.points.map Point.told = [(some "s", some 3, some 0, "")]) ∧
    Buffer.load farDisk .strict ⟨.single, ["b"]⟩ = .error (.format (.notJson "/a"
      (.unread .strict (letterFile "m").toUtf8.data.toList .malformed))) := by
  refine ⟨?_, ?_⟩
  · rcases load_agree farDisk .strict ⟨.single, ["a"]⟩ with
      ⟨_, -, hfailed, -⟩ | ⟨b, warnings, file, hb, hfile, -, -, -, htold⟩
    · rw [load_farDisk] at hfailed
      cases hfailed
    · obtain rfl := Except.ok.inj (hfile.symm.trans load_farDisk)
      have hentries : ((MapIndex.ofEntries [farEntry]).entries.filter (·.source.isSome)).map
          Entry.told = [(some "s", some 3, some 0, "")] := by cbv
      exact ⟨b, warnings, hb, List.perm_singleton.mp (hentries ▸ htold _ rfl)⟩
  · rcases load_agree farDisk .strict ⟨.single, ["b"]⟩ with
      ⟨error, hb, hfailed, -⟩ | ⟨_, _, _, -, hfile, -⟩
    · rw [hb, Except.error.inj (load_farDisk_notJson.symm.trans hfailed)]
    · rw [load_farDisk_notJson] at hfile
      cases hfile

end TracedText
