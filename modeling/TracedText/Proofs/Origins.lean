import Mathlib
import TracedText.Proofs.NormalForms
import TracedText.Proofs.Storage
import TracedText.Source.File

/-! # Offsets in the map of a buffer

The map of a buffer answers for an offset of its text what the points of the buffer say: the last
point on the line of the offset that is not behind the offset (`trace?_toDocument`).  The entry of a
point is one that a lookup takes into account exactly when the point is one of these
(`entryIn_reached_iff`), since positions are in the order of their offsets. -/

namespace TracedText

/-- The position in a source that an entry tells, with its name. -/
def Entry.origin (e : Entry) : Option String × Option ℤ × Option ℤ × Option String :=
  (e.source, e.sourceLine, e.sourceColumn, e.name)

/-- The position in a source that a point tells, with its name unless it is empty. -/
def Point.origin (p : Point) : Option String × Option ℤ × Option ℤ × Option String :=
  (p.source, p.line, p.column, if p.name = "" then none else some p.name)

/-- The last point that is not behind an offset and on its line. -/
def Buffer.pointBefore? (b : Buffer) (offset : ℕ) : Option Point :=
  (b.points.filter fun p : Point =>
    p.offset ≤ offset ∧ b.text.SameLine p.offset.toNat offset).getLast?

/-! ### Points and lookups -/

section
variable {text : Text} {p : Point} {offset : ℕ}

/-- A lookup takes the entry of a point into account when the point is on the line of the offset and
not behind it. -/
theorem Point.entryIn_reached_iff (hinside : 0 ≤ p.offset ∧ p.offset ≤ text.length)
    (hoffset : offset ≤ text.length) :
    ((p.entryIn text).line = (LineTable.ofText text .oneBasedLines).lineIndex offset + 1 ∧
        (p.entryIn text).column ≤
          text.unitColumn ((LineTable.ofText text .oneBasedLines).lineStart offset) offset) ↔
      p.offset ≤ offset ∧ text.SameLine p.offset.toNat offset := by
  have hlength : p.offset.toNat ≤ text.length := by omega
  have hle : p.offset.toNat ≤ offset ↔ p.offset ≤ offset := by omega
  rw [← hle, ← LineTable.column_le_iff text hlength hoffset]
  exact and_congr_left fun _ => Nat.add_right_cancel_iff

theorem SourceFile.trace?_eq (path : Option Path) (index : MapIndex) (offset : ℕ) :
    SourceFile.trace? ⟨path, text, some index⟩ offset =
      .ok (index.find? ((LineTable.ofText text .oneBasedLines).lineIndex offset + 1 : ℕ)
        (text.unitColumn ((LineTable.ofText text .oneBasedLines).lineStart offset) offset)) := by
  have hnonneg : ¬((offset : ℤ) < 0) := by omega
  unfold trace?
  simp only [lines, LineTable.positionOf, if_neg hnonneg]
  have hcolumn (start : ℕ) : (offset : ℤ) - (offset - start + 0) = start := by omega
  refine bind_eq_ok.mpr ⟨_, rfl, ?_⟩
  exact congrArg (fun start => Except.ok (index.find? _ (text.unitColumn start offset))) (hcolumn _)

theorem Point.origin_entryIn :
    Entry.origin { p.entryIn text with name := (p.entryIn text).name.filter (· ≠ "") } =
      p.origin := by
  unfold Entry.origin Point.origin Point.entryIn
  by_cases hname : p.name = "" <;> simp [hname, Option.filter]

end

namespace Buffer
variable {b : Buffer}

/-- **The map of a buffer answers by the points of the buffer.** -/
theorem trace?_toDocument (h : b.Consistent)
    (hpositioned : ∀ p ∈ b.points, p.source.isSome → p.line.isSome ∧ p.column.isSome)
    (file : String) {offset : ℕ} (hoffset : offset ≤ b.text.length) :
    ∃ d index found, b.toDocument file = .ok d ∧ MapIndex.ofDocument d.toJson = .ok index ∧
      SourceFile.trace? ⟨none, b.text, some index⟩ offset = .ok found ∧
      found.map Entry.origin =
        ((b.pointBefore? offset).filter (·.source.isSome)).map Point.origin := by
  have hentries : ∀ e ∈ b.points.map (Point.entryIn b.text), e.Positioned := by
    intro e he
    obtain ⟨p, hp, rfl⟩ := List.mem_map.mp he
    exact hpositioned p hp
  obtain ⟨d, hd⟩ : ∃ d, Document.ofEntries (b.points.map (Point.entryIn b.text)) file "" = .ok d :=
    ⟨_, Document.ofEntries_eq_ok.mpr ⟨hentries, rfl⟩⟩
  have hdecoded : decodeMap d.toJson = .ok ((Entry.sort _).map (Entry.restored "")) :=
    decodeMap_of_lookup hd rfl
  have hordered := (Entry.sort_sortedBy (b.points.map (Point.entryIn b.text))).ascending
  rw [sort_entries h] at hdecoded hordered
  have hindex : MapIndex.ofDocument d.toJson =
      .ok ⟨(b.points.map (Point.entryIn b.text)).map (Entry.restored "")⟩ := by
    refine map_eq_ok.mpr ⟨_, hdecoded, ?_⟩
    rw [MapIndex.ofEntries, Entry.sort_of_ordered (ordered_restored hordered)]
  refine ⟨d, _, _, ?_, hindex, SourceFile.trace?_eq none _ offset, ?_⟩
  · refine bind_eq_ok.mpr ⟨_, mapError_eq_ok.mpr (entries_eq_map h), ?_⟩
    exact mapError_eq_ok.mpr hd
  rw [MapIndex.find?_restored hordered, MapIndex.find?_eq_getLast? hordered, List.filter_map,
    List.getLast?_map]
  have hreached : b.points.filter ((fun e : Entry =>
        decide ((e.line : ℤ) = ((LineTable.ofText b.text .oneBasedLines).lineIndex offset + 1 : ℕ) ∧
          (e.column : ℤ) ≤ b.text.unitColumn
            ((LineTable.ofText b.text .oneBasedLines).lineStart offset) offset)) ∘
        Point.entryIn b.text) =
      b.points.filter fun p : Point =>
        p.offset ≤ offset ∧ b.text.SameLine p.offset.toNat offset := by
    refine List.filter_congr fun p hp => ?_
    rw [Function.comp_apply, decide_eq_decide, ← Point.entryIn_reached_iff (h.inside p hp) hoffset,
      Nat.cast_inj, Nat.cast_le]
  rw [hreached, ← pointBefore?]
  cases b.pointBefore? offset with
  | none => rfl
  | some p =>
      have hsame : (p.entryIn b.text).source.isSome = p.source.isSome := rfl
      rw [Option.map_some, Option.filter_some, Option.filter_some, hsame]
      by_cases hsome : p.source.isSome = true
      · rw [if_pos hsome, if_pos hsome]
        exact congrArg some Point.origin_entryIn
      · rw [if_neg hsome, if_neg hsome]
        rfl

/-- Two lines, the first with a point that has a source and a name, the second with one that has
neither. -/
def twoLines : Buffer :=
  ⟨['a', '\r', '\n', 'b'], [⟨0, some "s", some 1, some 4, "n"⟩, ⟨3, none, none, none, ""⟩]⟩

theorem trace?_toDocument_twoLines :
    twoLines.Consistent ∧
      (∀ p ∈ twoLines.points, p.source.isSome → p.line.isSome ∧ p.column.isSome) ∧
      ∃ d index found, twoLines.toDocument "out" = .ok d ∧
        MapIndex.ofDocument d.toJson = .ok index ∧
        SourceFile.trace? ⟨none, twoLines.text, some index⟩ 2 = .ok found ∧
        found.map Entry.origin = some (some "s", some 1, some 4, some "n") := by
  have hconsistent : twoLines.Consistent := ⟨by decide, by decide⟩
  have hpositioned : ∀ p ∈ twoLines.points, p.source.isSome → p.line.isSome ∧ p.column.isSome := by
    decide
  have hbefore : ((twoLines.pointBefore? 2).filter (·.source.isSome)).map Point.origin =
      some (some "s", some 1, some 4, some "n") := by decide
  have hinside : 2 ≤ twoLines.text.length := by decide
  obtain ⟨d, index, found, hd, hindex, hfound, horigin⟩ :=
    trace?_toDocument hconsistent hpositioned "out" hinside
  exact ⟨hconsistent, hpositioned, d, index, found, hd, hindex, hfound, horigin.trans hbefore⟩

end Buffer

end TracedText
