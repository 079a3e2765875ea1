import Mathlib
import TracedText.Proofs.Mappings

/-! # Documents that decode

A map document decodes exactly when its header is one that the format allows (`HeaderOf`), its
segments spell one, four or five fields each, and the running sums of the fields are columns and
indexes (`Spot.Fits`).  The entries are then read off these sums (`Spot.entry`).  The cursor of the
decoder holds the sums in front of a segment (`Cursor.behind`); `decodeLine_eq_ok` is the induction
over one line, `decodeLines_eq_ok` that over the lines, and `decodeMap_eq_ok_iff` the whole. -/

namespace TracedText

/-! ### Segments at their places -/

/-- The sum of the fields of one index over segments; a segment without the field adds nothing. -/
def fieldSum (index : ℕ) (segments : List (List ℤ)) : ℤ :=
  (segments.filterMap fun fields => fields[index]?).sum

@[simp] theorem fieldSum_nil (index : ℕ) : fieldSum index [] = 0 := rfl

theorem fieldSum_append (index : ℕ) (segments others : List (List ℤ)) :
    fieldSum index (segments ++ others) = fieldSum index segments + fieldSum index others := by
  rw [fieldSum, List.filterMap_append, List.sum_append]
  rfl

theorem fieldSum_singleton (index : ℕ) (fields : List ℤ) :
    fieldSum index [fields] = (fields[index]?).getD 0 := by
  unfold fieldSum
  cases h : fields[index]? <;> simp [h]

/-- The fields of a segment with what stands in front of it: the rows of segments of the lines above
and the segments of its own line. -/
structure Spot where
  above : List (List (List ℤ))
  front : List (List ℤ)
  fields : List ℤ

namespace Spot

section
variable (s : Spot)

/-- The segments of the line up to this one. -/
def onLine : List (List ℤ) := s.front ++ [s.fields]

/-- All segments up to this one. -/
def upTo : List (List ℤ) := s.above.flatten ++ s.onLine

/-- The generated line, counted from one. -/
def line : ℕ := s.above.length + 1

/-- The running sum of the generated columns, which start over on each line. -/
def column : ℤ := fieldSum 0 s.onLine

/-- The running sum of the indexes of sources. -/
def source : ℤ := fieldSum 1 s.upTo

/-- The running sum of the source lines, counted from zero. -/
def sourceLine : ℤ := fieldSum 2 s.upTo

/-- The running sum of the source columns. -/
def sourceColumn : ℤ := fieldSum 3 s.upTo

/-- The running sum of the indexes of names. -/
def name : ℤ := fieldSum 4 s.upTo

/-- What the format asks of a segment. -/
structure Fits (header : Header) : Prop where
  count : s.fields.length = 1 ∨ s.fields.length = 4 ∨ s.fields.length = 5
  column : 0 ≤ s.column
  source : s.fields.length ≠ 1 → 0 ≤ s.source ∧ s.source < header.sources.length
  name : s.fields.length = 5 → 0 ≤ s.name ∧ s.name < header.names.length

/-- The entry of a segment. -/
def entry (header : Header) : Entry :=
  if s.fields.length = 1 then .bare s.line s.column.toNat (Nat.le_add_left 1 _)
  else
    ⟨s.line, s.column.toNat, header.sources.getD s.source.toNat none, some (s.sourceLine + 1),
      some s.sourceColumn,
      if s.fields.length = 5 then header.names.getD s.name.toNat none else none,
      Nat.le_add_left 1 _⟩

/-- The segment with its indexes into the tables. -/
def segment : Segment :=
  ⟨s.column,
    if s.fields.length = 1 then none
    else some ⟨s.source, s.sourceLine, s.sourceColumn,
      if s.fields.length = 5 then some s.name else none⟩⟩

@[simp] theorem fieldSum_onLine (index : ℕ) :
    fieldSum index s.onLine = fieldSum index s.front + (s.fields[index]?).getD 0 := by
  rw [onLine, fieldSum_append, fieldSum_singleton]

@[simp] theorem fieldSum_upTo (index : ℕ) :
    fieldSum index s.upTo =
      fieldSum index (s.above.flatten ++ s.front) + (s.fields[index]?).getD 0 := by
  rw [upTo, onLine, ← List.append_assoc, fieldSum_append, fieldSum_singleton]

end

/-- The spots of the segments of one row, behind others of the line. -/
def ofRow (above : List (List (List ℤ))) (front row : List (List ℤ)) : List Spot :=
  row.zipIdx.map fun segment => ⟨above, front ++ row.take segment.2, segment.1⟩

/-- The spots of the segments of rows, below others. -/
def ofRows (above rows : List (List (List ℤ))) : List Spot :=
  rows.zipIdx.flatMap fun row => ofRow (above ++ rows.take row.2) [] row.1

@[simp] theorem ofRow_nil (above : List (List (List ℤ))) (front : List (List ℤ)) :
    ofRow above front [] = [] := rfl

theorem ofRow_cons (above : List (List (List ℤ))) (front row : List (List ℤ)) (fields : List ℤ) :
    ofRow above front (fields :: row) =
      ⟨above, front, fields⟩ :: ofRow above (front ++ [fields]) row := by
  rw [ofRow, List.zipIdx_cons, List.map_cons, Nat.zero_add, List.zipIdx_succ, List.map_map]
  simp [ofRow, Function.comp_def]

@[simp] theorem ofRows_nil (above : List (List (List ℤ))) : ofRows above [] = [] := rfl

theorem ofRows_cons (above rows : List (List (List ℤ))) (row : List (List ℤ)) :
    ofRows above (row :: rows) = ofRow above [] row ++ ofRows (above ++ [row]) rows := by
  rw [ofRows, List.zipIdx_cons, List.flatMap_cons, Nat.zero_add, List.zipIdx_succ,
    List.flatMap_map]
  simp [ofRows]

end Spot

/-! ### The cursor in front of a segment -/

namespace Cursor

/-- The running sums behind rows of segments and those in front of a segment. -/
def behind (above : List (List (List ℤ))) (front : List (List ℤ)) : Cursor :=
  ⟨fieldSum 0 front, fieldSum 1 (above.flatten ++ front), fieldSum 2 (above.flatten ++ front),
    fieldSum 3 (above.flatten ++ front), fieldSum 4 (above.flatten ++ front)⟩

variable {above : List (List (List ℤ))} {front : List (List ℤ)} {fields : List ℤ}

theorem nextLine_behind : (behind above front).nextLine = behind (above ++ [front]) [] := by
  simp [behind, nextLine]

/-- A segment is read from its fields exactly when there are one, four or five of them. -/
theorem segment?_behind {segment : Segment} :
    (behind above front).segment? fields = some segment ↔
      (fields.length = 1 ∨ fields.length = 4 ∨ fields.length = 5) ∧
        segment = (Spot.mk above front fields).segment := by
  unfold Spot.segment Spot.column Spot.source Spot.sourceLine Spot.sourceColumn Spot.name
  match fields with
  | [] => simp [segment?]
  | [a] => simp [segment?, behind, eq_comm]
  | [a, b] => simp [segment?]
  | [a, b, c] => simp [segment?]
  | [a, b, c, d] => simp [segment?, behind, eq_comm]
  | [a, b, c, d, e] => simp [segment?, behind, eq_comm]
  | a :: b :: c :: d :: e :: f :: rest => simp [segment?]

theorem after_behind (h : fields.length = 1 ∨ fields.length = 4 ∨ fields.length = 5) :
    (behind above front).after (Spot.mk above front fields).segment =
      behind above (front ++ [fields]) := by
  unfold Spot.segment Spot.column Spot.source Spot.sourceLine Spot.sourceColumn Spot.name
  unfold behind
  simp only [← List.append_assoc, fieldSum_append _ _ [fields], fieldSum_singleton]
  match fields with
  | [a] => simp [after]
  | [a, b, c, d] => simp [after]
  | [a, b, c, d, e] => simp [after]

end Cursor

/-! ### Segments -/

theorem tableItem?_eq_some {table : List (Option String)} {index : ℤ} {item : Option String} :
    tableItem? table index = some item ↔
      (0 ≤ index ∧ index < table.length) ∧ item = table.getD index.toNat none := by
  unfold tableItem?
  by_cases hneg : index < 0
  · rw [if_pos hneg]
    exact ⟨nofun, fun h => absurd h.1.1 (by omega)⟩
  · rw [if_neg hneg, List.getElem?_eq_some_iff, List.getD_eq_getElem?_getD]
    constructor
    · rintro ⟨hlt, rfl⟩
      exact ⟨by omega, by rw [List.getElem?_eq_getElem hlt, Option.getD_some]⟩
    · rintro ⟨⟨_, hlt⟩, rfl⟩
      have hlt : index.toNat < table.length := by omega
      exact ⟨hlt, by rw [List.getElem?_eq_getElem hlt, Option.getD_some]⟩

section
variable {header : Header} {line : ℕ} {one_le_line : 1 ≤ line}

theorem readSegment_eq_ok {c : Cursor} {text : Text} {segment : Segment} :
    readSegment line c text = .ok segment ↔
      ∃ fields, Vlq.decode text = .ok fields ∧ c.segment? fields = some segment := by
  unfold readSegment
  split
  · rename_i error herror
    rw [herror]
    exact ⟨nofun, nofun⟩
  · rename_i fields hfields
    split
    · rename_i hnone
      refine ⟨nofun, ?_⟩
      rintro ⟨_, h, hsome⟩
      rw [← Except.ok.inj (hfields.symm.trans h), hnone] at hsome
      cases hsome
    · rename_i found hfound
      constructor
      · exact fun h => ⟨fields, hfields, hfound.trans (congrArg some (Except.ok.inj h))⟩
      · rintro ⟨_, h, hsome⟩
        rw [← Except.ok.inj (hfields.symm.trans h), hfound] at hsome
        exact congrArg Except.ok (Option.some.inj hsome)

theorem readName_eq_ok {index : Option ℤ} {name : Option String} :
    readName header line index = .ok name ↔
      (∀ i, index = some i → 0 ≤ i ∧ i < header.names.length) ∧
        name = index.bind fun i => header.names.getD i.toNat none := by
  unfold readName
  split
  · exact ⟨fun h => ⟨nofun, (Except.ok.inj h).symm⟩, fun h => congrArg Except.ok h.2.symm⟩
  · rename_i i
    split
    · rename_i hnone
      refine ⟨nofun, fun h => ?_⟩
      rw [tableItem?_eq_some.mpr ⟨h.1 i rfl, rfl⟩] at hnone
      cases hnone
    · rename_i found hfound
      obtain ⟨hrange, rfl⟩ := tableItem?_eq_some.mp hfound
      constructor
      · intro h
        refine ⟨?_, (Except.ok.inj h).symm⟩
        rintro _ ⟨⟩
        exact hrange
      · exact fun h => congrArg Except.ok h.2.symm

theorem toEntry_bare_eq_ok {column : ℤ} {entry : Entry} :
    Segment.toEntry header line one_le_line ⟨column, none⟩ = .ok entry ↔
      0 ≤ column ∧ entry = .bare line column.toNat one_le_line := by
  unfold Segment.toEntry
  split
  · exact ⟨error_ne_ok.elim, fun h => absurd h.1 (not_le.mpr ‹_›)⟩
  · exact ⟨fun h => ⟨not_lt.mp ‹_›, (Except.ok.inj h).symm⟩, fun h => congrArg Except.ok h.2.symm⟩

theorem toEntry_origin_eq_ok {column : ℤ} {o : Segment.Origin} {entry : Entry} :
    Segment.toEntry header line one_le_line ⟨column, some o⟩ = .ok entry ↔
      (0 ≤ column ∧ (0 ≤ o.source ∧ o.source < header.sources.length) ∧
        ∀ i, o.name = some i → 0 ≤ i ∧ i < header.names.length) ∧
        entry = ⟨line, column.toNat, header.sources.getD o.source.toNat none, some (o.line + 1),
          some o.column, o.name.bind fun i => header.names.getD i.toNat none, one_le_line⟩ := by
  unfold Segment.toEntry
  split
  · exact ⟨error_ne_ok.elim, fun h => absurd h.1.1 (not_le.mpr ‹_›)⟩
  · rename_i hcolumn
    simp only
    split
    · rename_i hnone
      refine ⟨error_ne_ok.elim, fun h => ?_⟩
      rw [tableItem?_eq_some.mpr ⟨h.1.2.1, rfl⟩] at hnone
      cases hnone
    · rename_i source hsource
      obtain ⟨hrange, rfl⟩ := tableItem?_eq_some.mp hsource
      rw [bind_eq_ok]
      constructor
      · rintro ⟨name, hname, h⟩
        obtain ⟨hnames, rfl⟩ := readName_eq_ok.mp hname
        exact ⟨⟨not_lt.mp hcolumn, hrange, hnames⟩, (Except.ok.inj h).symm⟩
      · rintro ⟨⟨_, _, hnames⟩, rfl⟩
        exact ⟨_, readName_eq_ok.mpr ⟨hnames, rfl⟩, rfl⟩

theorem toEntry_segment_eq_ok (spot : Spot) {entry : Entry} (hline : 1 ≤ spot.line)
    (hcount : spot.fields.length = 1 ∨ spot.fields.length = 4 ∨ spot.fields.length = 5) :
    spot.segment.toEntry header spot.line hline = .ok entry ↔
      spot.Fits header ∧ entry = spot.entry header := by
  by_cases hbare : spot.fields.length = 1
  · have hsegment : spot.segment = ⟨spot.column, none⟩ := by rw [Spot.segment, if_pos hbare]
    rw [hsegment, toEntry_bare_eq_ok, Spot.entry, if_pos hbare]
    refine and_congr_left fun _ => ⟨fun h => ⟨hcount, h, ?_, ?_⟩, fun h => h.column⟩
    · exact fun hne => absurd hbare hne
    · exact fun hfive => absurd hbare (by omega)
  · have hsegment : spot.segment = ⟨spot.column, some ⟨spot.source, spot.sourceLine,
        spot.sourceColumn, if spot.fields.length = 5 then some spot.name else none⟩⟩ := by
      rw [Spot.segment, if_neg hbare]
    have hname (i : ℤ) : (if spot.fields.length = 5 then some spot.name else none) = some i ↔
        spot.fields.length = 5 ∧ spot.name = i := by
      split <;> simp [*]
    have hbind : ((if spot.fields.length = 5 then some spot.name else none).bind fun i =>
        header.names.getD i.toNat none) =
        if spot.fields.length = 5 then header.names.getD spot.name.toNat none else none := by
      split <;> rfl
    rw [hsegment, toEntry_origin_eq_ok, Spot.entry, if_neg hbare]
    simp only [hname, hbind]
    refine and_congr_left fun _ => ⟨?_, fun h => ?_⟩
    · rintro ⟨hcolumn, hsource, hnames⟩
      exact ⟨hcount, hcolumn, fun _ => hsource, fun hfive => hnames _ ⟨hfive, rfl⟩⟩
    · refine ⟨h.column, h.source hbare, ?_⟩
      rintro _ ⟨hfive, rfl⟩
      exact h.name hfive

end

/-! ### Lines and mappings -/

/-- The texts spell the fields of the segments of a row. -/
def SpellsRow (texts : List Text) (row : List (List ℤ)) : Prop :=
  List.Forall₂ (fun text fields => Vlq.decode text = .ok fields) texts row

/-- The segments of the text of a line: what stands between the commas, unless it is empty. -/
def segmentsOf (line : Text) : List Text := (line.splitOn ',').filter fun text => !text.isEmpty

/-- The mappings spell rows of segments, one for each line between the semicolons. -/
def Spells (mappings : Text) (rows : List (List (List ℤ))) : Prop :=
  List.Forall₂ (fun line row => SpellsRow (segmentsOf line) row) (mappings.splitOn ';') rows

section
variable {header : Header} {line : ℕ} {one_le_line : 1 ≤ line} (above : List (List (List ℤ)))

/-- **A line decodes exactly when its segments are spelled and fit the header.**  The induction is
on the texts, with what stands in front of them in the cursor. -/
theorem decodeLine_eq_ok {texts : List Text} {front : List (List ℤ)} {entries : List Entry}
    {last : Cursor} (hline : line = above.length + 1) :
    decodeLine header line one_le_line (.behind above front) texts = .ok (entries, last) ↔
      ∃ row, SpellsRow texts row ∧ (∀ spot ∈ Spot.ofRow above front row, spot.Fits header) ∧
        entries = (Spot.ofRow above front row).map (·.entry header) ∧
        last = .behind above (front ++ row) := by
  subst hline
  induction texts generalizing front entries last with
  | nil =>
      rw [decodeLine]
      constructor
      · intro h
        cases h
        exact ⟨[], .nil, List.forall_mem_nil _, rfl, by rw [List.append_nil]⟩
      · rintro ⟨row, hrow, _, rfl, rfl⟩
        cases hrow
        rw [List.append_nil]
        rfl
  | cons text rest ih =>
      rw [decodeLine]
      constructor
      · intro h
        obtain ⟨segment, hsegment, h⟩ := bind_eq_ok.mp h
        obtain ⟨entry, hentry, h⟩ := bind_eq_ok.mp h
        obtain ⟨⟨others, final⟩, hothers, h⟩ := bind_eq_ok.mp h
        cases h
        obtain ⟨fields, hfields, hsegment⟩ := readSegment_eq_ok.mp hsegment
        obtain ⟨hcount, rfl⟩ := Cursor.segment?_behind.mp hsegment
        obtain ⟨hfits, rfl⟩ := (toEntry_segment_eq_ok ⟨above, front, fields⟩ one_le_line
          hcount).mp hentry
        rw [Cursor.after_behind hcount] at hothers
        obtain ⟨row, hrow, hall, rfl, rfl⟩ := ih.mp hothers
        refine ⟨fields :: row, .cons hfields hrow, ?_, ?_, ?_⟩
        · rw [Spot.ofRow_cons]
          exact List.forall_mem_cons.mpr ⟨hfits, hall⟩
        · rw [Spot.ofRow_cons, List.map_cons]
        · rw [List.append_assoc, List.singleton_append]
      · rintro ⟨row, hrow, hall, rfl, rfl⟩
        obtain ⟨fields, others, hfields, hothers, rfl⟩ := List.forall₂_cons_left_iff.mp hrow
        rw [Spot.ofRow_cons] at hall ⊢
        obtain ⟨hfits, hall⟩ := List.forall_mem_cons.mp hall
        have hsegment : (Cursor.behind above front).segment? fields = some _ :=
          Cursor.segment?_behind.mpr ⟨hfits.count, rfl⟩
        refine bind_eq_ok.mpr ⟨_, readSegment_eq_ok.mpr ⟨fields, hfields, hsegment⟩, ?_⟩
        refine bind_eq_ok.mpr ⟨_, (toEntry_segment_eq_ok ⟨above, front, fields⟩ one_le_line
          hfits.count).mpr ⟨hfits, rfl⟩, ?_⟩
        rw [Cursor.after_behind hfits.count]
        refine bind_eq_ok.mpr ⟨_, ih.mpr ⟨others, hothers, hall, rfl, rfl⟩, ?_⟩
        rw [List.append_assoc, List.singleton_append, List.map_cons]
        rfl

/-- **Lines decode exactly when their segments are spelled and fit the header.** -/
theorem decodeLines_eq_ok {lines : List Text} {c : Cursor} {entries : List Entry}
    (hline : line = above.length + 1) (hc : c.nextLine = .behind above []) :
    decodeLines header line one_le_line c lines = .ok entries ↔
      ∃ rows, List.Forall₂ (fun line row => SpellsRow (segmentsOf line) row) lines rows ∧
        (∀ spot ∈ Spot.ofRows above rows, spot.Fits header) ∧
        entries = (Spot.ofRows above rows).map (·.entry header) := by
  induction lines generalizing line above c entries with
  | nil =>
      rw [decodeLines]
      constructor
      · intro h
        cases h
        exact ⟨[], .nil, List.forall_mem_nil _, rfl⟩
      · rintro ⟨rows, hrows, _, rfl⟩
        cases hrows
        rfl
  | cons text rest ih =>
      have hnext (row : List (List ℤ)) : line + 1 = (above ++ [row]).length + 1 := by
        simp [hline]
      rw [decodeLines, hc]
      constructor
      · intro h
        obtain ⟨⟨front, last⟩, hfront, h⟩ := bind_eq_ok.mp h
        obtain ⟨others, hothers, h⟩ := bind_eq_ok.mp h
        cases h
        obtain ⟨row, hrow, hfits, rfl, rfl⟩ := (decodeLine_eq_ok above hline).mp hfront
        obtain ⟨rows, hrows, hall, rfl⟩ := (ih _ (hnext row) Cursor.nextLine_behind).mp hothers
        refine ⟨row :: rows, .cons hrow hrows, ?_, ?_⟩
        · rw [Spot.ofRows_cons, List.forall_mem_append]
          exact ⟨hfits, hall⟩
        · rw [Spot.ofRows_cons, List.map_append]
      · rintro ⟨rows, hrows, hall, rfl⟩
        obtain ⟨row, others, hrow, hothers, rfl⟩ := List.forall₂_cons_left_iff.mp hrows
        rw [Spot.ofRows_cons, List.forall_mem_append] at hall
        refine bind_eq_ok.mpr ⟨_, (decodeLine_eq_ok above hline).mpr ⟨row, hrow, hall.1, rfl, rfl⟩, ?_⟩
        refine bind_eq_ok.mpr
          ⟨_, (ih _ (hnext row) Cursor.nextLine_behind).mpr ⟨others, hothers, hall.2, rfl⟩, ?_⟩
        rw [Spot.ofRows_cons, List.map_append]
        rfl

end

/-! ### Headers -/

/-- The value is the number of the version, as an integer or as a double. -/
def IsVersion (value : Json) : Prop :=
  value = .int formatVersion ∨ ∃ x, value = .float x ∧ x.toInt? = some formatVersion

/-- The root of a document: none when the field is absent or stands for absence. -/
def RootOf (document : Json) (root : String) : Prop :=
  (∀ value, document.get? "sourceRoot" = some value → value.isEmpty) ∧ root = "" ∨
    document.get? "sourceRoot" = some (.str root)

/-- A table of a document: an absent one is empty, and the others hold strings and nulls. -/
def TableOf (document : Json) (key : String) (table : List (Option String)) : Prop :=
  document.get? key = none ∧ table = [] ∨
    document.get? key = some (.arr (table.map fun item => item.elim .null .str))

/-- The document is one that the format allows, and these are its mappings, its sources behind its
root, and its names. -/
structure HeaderOf (document : Json) (header : Header) : Prop where
  object : ∃ fields, document = .obj fields
  flat : document.get? "sections" = none
  version : ∃ value, document.get? "version" = some value ∧ IsVersion value
  mappings : document.get? "mappings" = some (.str (String.ofList header.mappings))
  sources : ∃ root table, RootOf document root ∧ TableOf document "sources" table ∧
    header.sources = table.map fun item => item.map (underRoot root)
  names : TableOf document "names" header.names

section
variable {document : Json}

theorem isFormatVersion_iff {value : Json} : isFormatVersion value = true ↔ IsVersion value := by
  cases value <;> simp [isFormatVersion, IsVersion]

/-- What stands in front of the sources under a root. -/
def rootFront (root : String) : String :=
  if root = "" then "" else if root.toList.getLast? = some '/' then root else root ++ "/"

theorem rootFront_append (root source : String) :
    rootFront root ++ source = underRoot root source := by
  unfold rootFront underRoot
  split
  · exact String.empty_append
  · split <;> rfl

theorem readRoot_eq_ok {front : String} :
    readRoot document = .ok front ↔ ∃ root, RootOf document root ∧ front = rootFront root := by
  unfold readRoot RootOf
  cases hvalue : document.get? "sourceRoot" with
  | none =>
      constructor
      · intro h
        exact ⟨"", Or.inl ⟨by simp, rfl⟩, (Except.ok.inj h).symm⟩
      · rintro ⟨root, ⟨_, rfl⟩ | h, rfl⟩
        · rfl
        · cases h
  | some value =>
      simp only [Option.some.injEq, forall_eq']
      by_cases hempty : value.isEmpty
      · rw [if_pos hempty]
        constructor
        · intro h
          exact ⟨"", Or.inl ⟨hempty, rfl⟩, (Except.ok.inj h).symm⟩
        · rintro ⟨root, ⟨_, rfl⟩ | rfl, rfl⟩
          · rfl
          · have hroot : root = "" := by simpa [Json.isEmpty] using hempty
            rw [hroot]
            rfl
      · rw [if_neg hempty]
        simp only [hempty, false_and, false_or, Bool.false_eq_true]
        split
        · rename_i root
          have hroot : root ≠ "" := by
            rintro rfl
            exact hempty rfl
          simp only [Json.str.injEq, exists_eq_left', Except.ok.injEq, rootFront, if_neg hroot,
            beq_iff_eq]
          exact eq_comm
        · rename_i hother
          refine ⟨error_ne_ok.elim, ?_⟩
          rintro ⟨root, rfl, _⟩
          exact absurd rfl (hother root)

theorem readTable_eq_ok {key : String} {table : List (Option String)} :
    readTable document key = .ok table ↔ TableOf document key table := by
  unfold readTable TableOf
  split
  · rename_i habsent
    simp only [habsent, true_and, reduceCtorEq, or_false, Except.ok.injEq, eq_comm]
  · rename_i items hitems
    simp only [hitems, reduceCtorEq, false_and, false_or, Option.some.injEq, Json.arr.injEq]
    rw [mapM_eq_ok, ← List.forall₂_eq_eq_eq, List.forall₂_map_right_iff]
    refine iff_of_eq (congrArg (List.Forall₂ · items table) ?_)
    funext item b
    cases b <;> cases item <;> simp
  · rename_i value hother hvalue
    rw [hvalue]
    refine ⟨nofun, ?_⟩
    rintro (⟨h, _⟩ | h)
    · cases h
    · exact (hother _ (Option.some.inj h)).elim

/-- The checks of the header in their order, and the parts behind them. -/
theorem readHeader_obj (fields : List (String × Json)) :
    readHeader (.obj fields) =
      if ((Json.obj fields).get? "sections").isSome then .error .sectioned
      else if isFormatVersion (((Json.obj fields).get? "version").getD .null) then
        match (Json.obj fields).get? "mappings" with
        | some (.str mappings) => do
          let root ← readRoot (.obj fields)
          let sources ← readTable (.obj fields) "sources"
          let names ← readTable (.obj fields) "names"
          return ⟨mappings.toList, sources.map (·.map (root ++ ·)), names⟩
        | _ => .error .mappings
      else .error (.version (((Json.obj fields).get? "version").getD .null)) := by
  unfold readHeader
  simp only
  split
  · rfl
  · cases isFormatVersion (((Json.obj fields).get? "version").getD .null)
    · rfl
    · cases (Json.obj fields).get? "mappings" with
      | none => rfl
      | some value => cases value <;> rfl

/-- **A header is read exactly when the document is one that the format allows.** -/
theorem readHeader_eq_ok {header : Header} :
    readHeader document = .ok header ↔ HeaderOf document header := by
  constructor
  · intro h
    cases document with
    | obj fields =>
        rw [readHeader_obj] at h
        split at h
        · cases h
        rename_i hflat
        split at h
        · rename_i hversion
          split at h
          · rename_i mappings hmappings
            obtain ⟨front, hfront, h⟩ := bind_eq_ok.mp h
            obtain ⟨table, htable, h⟩ := bind_eq_ok.mp h
            obtain ⟨names, hnames, h⟩ := bind_eq_ok.mp h
            obtain ⟨root, hroot, rfl⟩ := readRoot_eq_ok.mp hfront
            cases h
            refine ⟨⟨fields, rfl⟩, by simpa using hflat, ?_, by simpa using hmappings,
              ⟨root, table, hroot, readTable_eq_ok.mp htable, ?_⟩, readTable_eq_ok.mp hnames⟩
            · cases hvalue : (Json.obj fields).get? "version" with
              | none =>
                  rw [hvalue] at hversion
                  cases hversion
              | some value =>
                  rw [hvalue] at hversion
                  exact ⟨value, rfl, isFormatVersion_iff.mp hversion⟩
            · simp only [rootFront_append]
          · cases h
        · cases h
    | _ => cases h
  · rintro ⟨⟨fields, rfl⟩, hflat, ⟨value, hversion, hvalue⟩, hmappings,
      ⟨root, table, hroot, htable, hsources⟩, hnames⟩
    have hroot := readRoot_eq_ok.mpr ⟨root, hroot, rfl⟩
    have htable := readTable_eq_ok.mpr htable
    have hnames := readTable_eq_ok.mpr hnames
    have hvalue := isFormatVersion_iff.mpr hvalue
    rw [readHeader_obj, hflat, hversion, hmappings, Option.getD_some, if_pos hvalue]
    refine bind_eq_ok.mpr ⟨_, hroot, bind_eq_ok.mpr ⟨_, htable, bind_eq_ok.mpr ⟨_, hnames, ?_⟩⟩⟩
    simp only [rootFront_append]
    rw [String.toList_ofList, ← hsources]
    rfl

end

/-! ### Documents -/

/-- The entries of rows of segments. -/
def entriesOf (header : Header) (rows : List (List (List ℤ))) : List Entry :=
  (Spot.ofRows [] rows).map (·.entry header)

/-- **A document decodes exactly when the format allows its header and its segments are spelled and
fit the header**; the entries are then those of the segments in the stable order of their generated
positions. -/
theorem decodeMap_eq_ok_iff {document : Json} {entries : List Entry} :
    decodeMap document = .ok entries ↔
      ∃ header rows, HeaderOf document header ∧ Spells header.mappings rows ∧
        (∀ spot ∈ Spot.ofRows [] rows, spot.Fits header) ∧
        SortedBy Entry.place (entriesOf header rows) entries := by
  unfold decodeMap
  constructor
  · intro h
    obtain ⟨header, hheader, h⟩ := bind_eq_ok.mp h
    obtain ⟨found, hfound, h⟩ := bind_eq_ok.mp h
    cases h
    obtain ⟨rows, hrows, hfits, rfl⟩ := (decodeLines_eq_ok [] rfl rfl).mp hfound
    exact ⟨header, rows, readHeader_eq_ok.mp hheader, hrows, hfits, Entry.sort_sortedBy _⟩
  · rintro ⟨header, rows, hheader, hrows, hfits, hsorted⟩
    refine bind_eq_ok.mpr ⟨header, readHeader_eq_ok.mpr hheader, ?_⟩
    refine bind_eq_ok.mpr
      ⟨_, (decodeLines_eq_ok [] rfl rfl).mpr ⟨rows, hrows, hfits, rfl⟩, ?_⟩
    exact congrArg Except.ok ((Entry.sort_sortedBy _).unique hsorted)

end TracedText
