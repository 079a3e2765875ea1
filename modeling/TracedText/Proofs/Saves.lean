import TracedText.Proofs.JsonReorderings
import TracedText.Proofs.StoredLookups
import TracedText.Session.Run

/-! # What a save leaves behind

A save makes the document first, then writes the text and then the map.  Each of the two writes goes
through a medium and may fail on the way to the file, for want of bytes, or in the middle of the file.
However it ends, it leaves every file but its own as it was (`Disk.KeepsBut`), and its own too if it
has not come to it (`Medium.LeftBy`); so a map outlives all failures in front of its own write.
`Session.step_save` has every way in which a save ends, for any medium. -/

namespace TracedText

namespace Buffer
variable {b : Buffer} {m : Medium} {d made : Disk} {writer : Json.Dialect} {pretty : Bool}
  {p : Path} {name : String}

/-! ### Documents -/

/-- A document is made of points that are not in front of the text and have a full position in their
source, if they have one. -/
theorem exists_toDocument_iff : (∃ document, b.toDocument name = .ok document) ↔
    ∀ q ∈ b.points, 0 ≤ q.offset ∧ (q.source.isSome → q.line.isSome ∧ q.column.isSome) := by
  constructor
  · rintro ⟨document, hdocument⟩ q hq
    obtain ⟨entries, hentries, hmade⟩ := bind_eq_ok.mp hdocument
    obtain ⟨hinside, rfl⟩ := entries_eq_ok.mp (mapError_eq_ok.mp hentries)
    obtain ⟨hpositioned, -⟩ := Document.ofEntries_eq_ok.mp (mapError_eq_ok.mp hmade)
    have hmem : q.entryIn b.text ∈ (Point.sort b.points).map (Point.entryIn b.text) :=
      List.mem_map_of_mem (Point.mem_sort.mpr hq)
    exact ⟨hinside q hq, hpositioned _ hmem⟩
  · intro h
    have hpositioned : ∀ e ∈ (Point.sort b.points).map (Point.entryIn b.text), e.Positioned := by
      intro e he
      obtain ⟨q, hq, rfl⟩ := List.mem_map.mp he
      exact (h q (Point.mem_sort.mp hq)).2
    have hentries := entries_eq_ok.mpr ⟨fun q hq => (h q hq).1, rfl⟩
    exact ⟨_, bind_eq_ok.mpr ⟨_, mapError_eq_ok.mpr hentries,
      mapError_eq_ok.mpr (Document.ofEntries_eq_ok.mpr ⟨hpositioned, rfl⟩)⟩⟩

theorem exists_toDocument_error_iff : (∃ error, b.toDocument name = .error error) ↔
    ∃ q ∈ b.points, q.offset < 0 ∨ q.source.isSome ∧ ¬ (q.line.isSome ∧ q.column.isSome) := by
  have hnot : (∃ error, b.toDocument name = .error error) ↔
      ¬ ∃ document, b.toDocument name = .ok document := by
    cases b.toDocument name <;> simp
  rw [hnot, exists_toDocument_iff]
  simp only [not_forall, exists_prop, not_and_or, not_le]

/-! ### The steps of a save -/

theorem save_unnamed (hname : p.name? = none) :
    b.save m d writer pretty p = (.error .unnamed, d) := by
  simp only [save, hname]

theorem save_of_toDocument_error (hname : p.name? = some name) {error : TraceError}
    (hdocument : b.toDocument name = .error error) :
    b.save m d writer pretty p = (.error (.trace error), d) := by
  simp only [save, hname, hdocument]

section
variable {document : Document} {map : Text}

theorem save_of_writeText_error (hname : p.name? = some name)
    (hdocument : b.toDocument name = .ok document) {error : SaveError}
    (hwrite : m.writeText d p (b.markedText (name ++ mapSuffix)) = (.error error, made)) :
    b.save m d writer pretty p = (.error error, made) := by
  simp only [save, hname, hdocument, hwrite]

/-- Behind the text the map is written, and the save ends as this does. -/
theorem save_of_writeText_ok (hname : p.name? = some name)
    (hdocument : b.toDocument name = .ok document)
    (hspelled : Json.write writer pretty document.toJson = .ok map)
    (hwrite : m.writeText d p (b.markedText (name ++ mapSuffix)) = (.ok (), made))
    {ended : Except SaveError Unit} {left : Disk}
    (hbeside : m.writeText made (p.withName (name ++ mapSuffix)) map = (ended, left)) :
    b.save m d writer pretty p =
      (ended.map fun _ => (b.markedText (name ++ mapSuffix), map), left) := by
  simp only [save, hname, hdocument, hwrite, Medium.writeJson_of_spelled hspelled, hbeside]
  cases ended <;> rfl

theorem exists_save_ok_iff (hname : p.name? = some name)
    (hdocument : b.toDocument name = .ok document)
    (hspelled : Json.write writer pretty document.toJson = .ok map) :
    (∃ files, (b.save m d writer pretty p).1 = .ok files) ↔ ∃ made left,
      m.writeText d p (b.markedText (name ++ mapSuffix)) = (.ok (), made) ∧
        m.writeText made (p.withName (name ++ mapSuffix)) map = (.ok (), left) := by
  constructor
  · rintro ⟨files, hfiles⟩
    rcases hwrite : m.writeText d p (b.markedText (name ++ mapSuffix)) with ⟨_ | _, made⟩
    · rw [save_of_writeText_error hname hdocument hwrite] at hfiles
      exact nomatch hfiles
    · rcases hbeside : m.writeText made (p.withName (name ++ mapSuffix)) map with ⟨_ | _, left⟩
      · rw [save_of_writeText_ok hname hdocument hspelled hwrite hbeside] at hfiles
        exact nomatch hfiles
      · exact ⟨made, left, rfl, hbeside⟩
  · rintro ⟨made, left, hwrite, hbeside⟩
    rw [save_of_writeText_ok hname hdocument hspelled hwrite hbeside]
    exact ⟨_, rfl⟩

end

end Buffer

/-! ### What a write that fails leaves -/

/-- What a path leads to is a file with the same bytes on two disks, or on both no file.  The path is
followed on the second one, which has the directories of the first. -/
def Disk.SameFile (d left : Disk) (p : Path) : Prop :=
  ∀ l, left.locate p = .ok l → ∀ bytes, left l = some (.file bytes) ↔ d l = some (.file bytes)

namespace Medium
variable {m : Medium} {d left : Disk} {p : Path} {t : Text}

/-- What writing a text to a path leaves: every other file is as it was, and so is the file at the
path when the directories on the way cannot be made, or the text has no bytes. -/
structure LeftBy (m : Medium) (d : Disk) (p : Path) (t : Text) (left : Disk) : Prop where
  others : d.KeepsBut left p
  unreached : (∃ error, (m.ensureParent d p).1 = .error error) ∨ m.encodes t = false →
    d.Grows left

theorem writeText_leftBy {ended : Except SaveError Unit}
    (h : m.writeText d p t = (ended, left)) : m.LeftBy d p t left := by
  refine ⟨write_keepsBut h, fun hunreached => write_grows h (hunreached.imp_right fun hencodes => ?_)⟩
  refine ⟨.encoding t, ?_⟩
  rw [encode, if_neg (by simp [hencodes])]

theorem LeftBy.sameFile_beside (h : m.LeftBy d p t left) {name beside : String}
    (hname : p.name? = some name) (hne : name ≠ beside) : d.SameFile left (p.withName beside) :=
  fun l hl => h.others.files l fun hp => Disk.locate_withName_ne hname hne hp hl

/-- A file that was written is still read when another one beside it was written, or not. -/
theorem LeftBy.read_beside {name beside : String} {made : Disk} {map : Text}
    (hwrite : m.writeText d p t = (.ok (), made)) (hname : p.name? = some name)
    (hne : name ≠ beside) (hleft : m.LeftBy made (p.withName beside) map left) :
    left.read p = .ok t.toUtf8 := by
  obtain ⟨ready, -, hput⟩ := writeText_eq_ok hwrite
  exact hleft.others.read (Disk.read_put hput) fun l hl => Disk.locate_withName_ne hname hne hl

end Medium

namespace Session
variable {s : Session} {b : Buffer} {name : String} {writer : Json.Dialect}

/-- A step that saves a buffer changes the disk, and ends as the save does. -/
theorem step_save_eq (hs : s.buffers name = some b) {path : String} {pretty : Bool}
    {ended : Except SaveError (Text × Text)} {left : Disk}
    (hsave : b.save s.medium s.disk writer pretty (s.path path) = (ended, left)) :
    s.step ⟨name, writer, .save path pretty⟩ =
      (⟨(ended.map fun files => .files files.1 files.2).mapError .ofSave,
        b.saveWarnings (s.path path)⟩, { s with disk := left }) := by
  simp only [step, stepSave, buffer, hs, hsave]

/-- **What a save leaves behind.**  Nothing but the disk changes in a session that saves a buffer,
whatever its points and whatever the medium does.  Nothing at all changes when the path has no name,
or when the document cannot be made, for a point in front of the text or a source without a full
position.  When the text cannot be written, the map is as it was; when the map cannot be, the text is
there.  The save succeeds when both were written, and only then; the text then stands there with its
marker line behind it, and the map, which either dialect reads as the document that the buffer has, but
for the order of its keys. -/
theorem step_save (hs : s.buffers name = some b)
    (hwriter : writer ∈ [Json.Dialect.strict, .lenient]) (path : String) (pretty : Bool) :
    let p := s.path path
    let next := s.step ⟨name, writer, .save path pretty⟩
    next.2 = { s with disk := next.2.disk } ∧
      (p.name? = none → next.1.outcome = .error .unnamed ∧ next.2.disk = s.disk) ∧
      ∀ file, p.name? = some file →
        let beside := p.withName (file ++ mapSuffix)
        let text := b.text ++ '\n' :: (Marker.line (file ++ mapSuffix) ++ ['\n'])
        ((∃ error, b.toDocument file = .error error) ↔ ∃ q ∈ b.points,
          q.offset < 0 ∨ q.source.isSome ∧ ¬ (q.line.isSome ∧ q.column.isSome)) ∧
        (∀ error, b.toDocument file = .error error →
          next.1.outcome = .error (.ofTrace error) ∧ next.2.disk = s.disk) ∧
        ∀ document, b.toDocument file = .ok document → ∃ map,
          Json.write writer pretty document.toJson = .ok map ∧
          (∀ reader ∈ [Json.Dialect.strict, .lenient], ∃ found,
            Json.read reader map.toUtf8 = .ok found ∧ Json.Reordered document.toJson found) ∧
          ((∃ reply, next.1.outcome = .ok reply) ↔ ∃ made left,
            s.medium.writeText s.disk p text = (.ok (), made) ∧
              s.medium.writeText made beside map = (.ok (), left)) ∧
          (∀ error left, s.medium.writeText s.disk p text = (.error error, left) →
            next.1.outcome = .error (.ofSave error) ∧ next.2.disk = left ∧
              s.medium.LeftBy s.disk p text left ∧ s.disk.SameFile left beside) ∧
          ∀ made, s.medium.writeText s.disk p text = (.ok (), made) →
            (∀ error left, s.medium.writeText made beside map = (.error error, left) →
              next.1.outcome = .error (.ofSave error) ∧ next.2.disk = left ∧
                left.read p = .ok text.toUtf8 ∧ s.medium.LeftBy made beside map left) ∧
            ∀ left, s.medium.writeText made beside map = (.ok (), left) →
              next.1.outcome = .ok (.files text map) ∧ next.2.disk = left ∧
                left.read p = .ok text.toUtf8 ∧ left.read beside = .ok map.toUtf8 := by
  intro p next
  have hnext {ended : Except SaveError (Text × Text)} {left : Disk}
      (hsave : b.save s.medium s.disk writer pretty p = (ended, left)) :
      next.1.outcome = (ended.map fun files => .files files.1 files.2).mapError .ofSave ∧
        next.2.disk = left := by
    rw [show next = _ from step_save_eq hs hsave]
    exact ⟨rfl, rfl⟩
  refine ⟨?_, fun hname => hnext (Buffer.save_unnamed hname), fun file hname => ?_⟩
  · rw [show next = _ from step_save_eq hs rfl]
  intro beside text
  have hne := Buffer.name_ne_mapName file
  refine ⟨Buffer.exists_toDocument_error_iff,
    fun error hdocument => hnext (Buffer.save_of_toDocument_error hname hdocument),
    fun document hdocument => ?_⟩
  obtain ⟨map, hspelled⟩ := document.write_toJson hwriter pretty
  refine ⟨map, hspelled, fun reader hreader => ?_, ?_, fun error left hwrite => ?_,
    fun made hwrite => ⟨fun error left hbeside => ?_, fun left hbeside => ?_⟩⟩
  · have hfits := document.fits_reader hreader
    exact ⟨_, Json.read_write hfits hspelled, Json.reordered_sortKeys hfits⟩
  · refine Iff.trans ?_ (Buffer.exists_save_ok_iff hname hdocument hspelled)
    rw [(hnext rfl).1]
    simp only [mapError_eq_ok, map_eq_ok]
    constructor
    · rintro ⟨_, files, hfiles, -⟩
      exact ⟨files, hfiles⟩
    · rintro ⟨files, hfiles⟩
      exact ⟨_, files, hfiles, rfl⟩
  · obtain ⟨houtcome, hdisk⟩ := hnext (Buffer.save_of_writeText_error hname hdocument hwrite)
    have hleft := Medium.writeText_leftBy hwrite
    exact ⟨houtcome, hdisk, hleft, hleft.sameFile_beside hname hne⟩
  · obtain ⟨houtcome, hdisk⟩ :=
      hnext (Buffer.save_of_writeText_ok hname hdocument hspelled hwrite hbeside)
    have hleft := Medium.writeText_leftBy hbeside
    exact ⟨houtcome, hdisk, hleft.read_beside hwrite hname hne, hleft⟩
  · obtain ⟨houtcome, hdisk⟩ :=
      hnext (Buffer.save_of_writeText_ok hname hdocument hspelled hwrite hbeside)
    obtain ⟨ready, -, hput⟩ := Medium.writeText_eq_ok hbeside
    exact ⟨houtcome, hdisk, (Medium.writeText_leftBy hbeside).read_beside hwrite hname hne,
      Disk.read_put hput⟩

/-- A session with a buffer, a medium and a disk. -/
def holding (b : Buffer) (m : Medium) (d : Disk) : Session :=
  setBuffer { start ⟨.relative, []⟩ with medium := m, disk := d } "main" b

/-- A buffer with a point in front of its text. -/
def inFront : Buffer := ⟨['a'], [⟨-1, none, none, none, ""⟩]⟩

/-- The bytes of a map that was there before. -/
def formerMap : ByteArray := "{}".toUTF8

/-- A disk with this map on it. -/
def formerDisk : Disk := Disk.set (.withDirectory []) ["a.map"] (.file formerMap)

/-- A medium that has no bytes for any text. -/
def mute : Medium := { Medium.plain with encodes := fun _ => false }

/-- A medium that empties the file of a name and then has no room to fill it. -/
def cramped (name : String) : Medium where
  encodes _ := true
  ensureParent := Disk.ensureParent
  put d p bytes :=
    if p.name? = some name then
      match d.put p .empty with
      | .ok left => (.error .full, left)
      | .error error => (.error error, d)
    else Medium.plain.put d p bytes
  ensureParent_grows := Disk.ensureParent_grows
  put_ok := by
    intro d p bytes written h
    split at h
    · split at h
      · exact nomatch h
      · exact nomatch h
    · exact Medium.plain.put_ok h
  put_error := by
    intro d p bytes error left h
    split at h
    · split at h
      · rename_i hput
        exact Or.inr ⟨_, (Prod.mk.inj h).2 ▸ hput⟩
      · exact Or.inl (Prod.mk.inj h).2.symm
    · exact Medium.plain.put_error h

theorem step_save_holding :
    let save (b : Buffer) (m : Medium) :=
      (holding b m formerDisk).step ⟨"main", .strict, .save "a" true⟩
    let text : Text := ['𝄞', '\r', '\n'] ++ "//# sourceMappingURL=a.map".toList ++ ['\n']
    let map := Json.write .strict true (Document.toJson ⟨"a", "", ["x"], ["f"], "EAAHA;A".toList⟩)
    let read (next : Answer × Session) (file : String) := next.2.disk.read ⟨.relative, [file]⟩
    (save inFront .plain).1.outcome = .error (.range (.negativeOffset (-1))) ∧
      (save inFront .plain).2.disk = formerDisk ∧
      (save .clef mute).1.outcome = .error (.unencodable text) ∧
      read (save .clef mute) "a.map" = .ok formerMap ∧
      (save .clef (cramped "a")).1.outcome = .error (.disk .full) ∧
      read (save .clef (cramped "a")) "a.map" = .ok formerMap ∧
      (save .clef (cramped "a.map")).1.outcome = .error (.disk .full) ∧
      read (save .clef (cramped "a.map")) "a" = .ok text.toUtf8 ∧
      ∃ spelled, map = .ok spelled ∧
        (save .clef .plain).1.outcome = .ok (.files text spelled) ∧
        read (save .clef .plain) "a" = .ok text.toUtf8 ∧
        read (save .clef .plain) "a.map" = .ok spelled.toUtf8 := by
  intro save text map read
  have hpath (b : Buffer) (m : Medium) : (holding b m formerDisk).path "a" = ⟨.relative, ["a"]⟩ := by
    show Path.ofString _ = _
    cbv
  have hstrict : Json.Dialect.strict ∈ [Json.Dialect.strict, .lenient] := by decide
  have hsave (b : Buffer) (m : Medium) :=
    step_save (s := holding b m formerDisk) (setBuffer_same _ "main" b) hstrict "a" true
  simp only [hpath] at hsave
  have hname : Path.name? ⟨.relative, ["a"]⟩ = some "a" := rfl
  have hsuffix : "a" ++ mapSuffix = "a.map" := rfl
  have hbeside : Path.withName ⟨.relative, ["a"]⟩ "a.map" = ⟨.relative, ["a.map"]⟩ := rfl
  have htext : Buffer.clef.text ++ '\n' :: (Marker.line "a.map" ++ ['\n']) = text := rfl
  have hfailed : inFront.toDocument "a" = .error (.range (.negativeOffset (-1))) := by cbv
  have hmade : Buffer.clef.toDocument "a" = .ok ⟨"a", "", ["x"], ["f"], "EAAHA;A".toList⟩ := by
    cbv
  have hclef (m : Medium) := ((hsave .clef m).2.2 "a" hname).2.2 _ hmade
  rw [hsuffix, hbeside, htext] at hclef
  have hread {next : Answer × Session} {left : Disk} {file : String} {bytes : ByteArray}
      (hdisk : next.2.disk = left) (h : left.read ⟨.relative, [file]⟩ = .ok bytes) :
      read next file = .ok bytes :=
    (congrArg (fun d : Disk => d.read ⟨.relative, [file]⟩) hdisk).trans h
  have hformer {left : Disk} (hlocate : left.locate ⟨.relative, ["a.map"]⟩ = .ok ["a.map"])
      (hsame : formerDisk.SameFile left ⟨.relative, ["a.map"]⟩) :
      left.read ⟨.relative, ["a.map"]⟩ = .ok formerMap :=
    Disk.read_eq_ok.mpr ⟨_, hlocate, (hsame _ hlocate _).mpr (Disk.set_same _ _ _)⟩
  obtain ⟨houtcome, hdisk⟩ := ((hsave inFront .plain).2.2 "a" hname).2.1 _ hfailed
  have hmute : mute.writeText formerDisk ⟨.relative, ["a"]⟩ text =
      (.error (.encoding text), formerDisk) := rfl
  obtain ⟨_, -, -, -, hunwritten, -⟩ := hclef mute
  obtain ⟨hrefused, hkept, -, hsame⟩ := hunwritten _ _ hmute
  have hemptied : (cramped "a").writeText formerDisk ⟨.relative, ["a"]⟩ text =
      (.error (.disk .full), formerDisk.set ["a"] (.file .empty)) := rfl
  obtain ⟨_, -, -, -, hunfilled, -⟩ := hclef (cramped "a")
  obtain ⟨hfull, hleft, -, hbehind⟩ := hunfilled _ _ hemptied
  have hwritten : (cramped "a.map").writeText formerDisk ⟨.relative, ["a"]⟩ text =
      (.ok (), formerDisk.set ["a"] (.file text.toUtf8)) := rfl
  obtain ⟨lost, -, -, -, -, hunmapped⟩ := hclef (cramped "a.map")
  have hhalf : (cramped "a.map").writeText (formerDisk.set ["a"] (.file text.toUtf8))
      ⟨.relative, ["a.map"]⟩ lost = (.error (.disk .full),
        (formerDisk.set ["a"] (.file text.toUtf8)).set ["a.map"] (.file .empty)) := rfl
  obtain ⟨hcut, hthere, htextKept, -⟩ := (hunmapped _ hwritten).1 _ _ hhalf
  obtain ⟨spelled, hspelled, -, -, -, hboth⟩ := hclef .plain
  have hfirst : Medium.plain.writeText formerDisk ⟨.relative, ["a"]⟩ text =
      (.ok (), formerDisk.set ["a"] (.file text.toUtf8)) := rfl
  have hsecond : Medium.plain.writeText (formerDisk.set ["a"] (.file text.toUtf8))
      ⟨.relative, ["a.map"]⟩ spelled = (.ok (),
        (formerDisk.set ["a"] (.file text.toUtf8)).set ["a.map"] (.file spelled.toUtf8)) := rfl
  obtain ⟨hsaved, hstored, htextRead, hmapRead⟩ := (hboth _ hfirst).2 _ hsecond
  exact ⟨houtcome, hdisk, hrefused, hread hkept (hformer rfl hsame), hfull,
    hread hleft (hformer rfl hbehind), hcut, hread hthere htextKept, spelled, hspelled, hsaved,
    hread hstored htextRead, hread hstored hmapRead⟩

end Session

end TracedText
