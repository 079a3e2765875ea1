import TracedText.Proofs.Positions
import TracedText.Proofs.Storage

/-! # Offsets as places of a map

The map of a buffer tells an offset by its place: its line, counted from one, and its column in code
units.  A place is compared with another by line and then by column, and this is to compare the
offsets (`place_entryIn_lt_iff`).  The place leads back to the offset, and the entry of a point to the
point (`toPoint?_entryIn_of_sourced`); `toEntry_embedding` says all of this of the entries that are
written. -/

namespace TracedText

namespace Point
variable {t : Text} {p q : Point}

theorem place_entryIn_lt_iff (hp : 0 ≤ p.offset ∧ p.offset ≤ t.length)
    (hq : 0 ≤ q.offset ∧ q.offset ≤ t.length) :
    (p.entryIn t).place < (q.entryIn t).place ↔ p.offset < q.offset :=
  lt_iff_lt_of_le_iff_le (place_entryIn_le_iff hq hp)

theorem entryIn_place (hp : 0 ≤ p.offset) :
    ∃ position, (LineTable.ofText t .oneBasedLines).positionOf p.offset = .ok position ∧
      ((p.entryIn t).line : ℤ) = position.line ∧
      (p.entryIn t).column = t.unitColumn (p.offset - position.column) p.offset := by
  obtain ⟨offset, source, line, column, name⟩ := p
  obtain ⟨n, rfl⟩ := Int.eq_ofNat_of_zero_le hp
  have hcolumn : (n : ℤ) - (n - (LineTable.ofText t .oneBasedLines).lineStart n + 0) =
      (LineTable.ofText t .oneBasedLines).lineStart n := by omega
  refine ⟨_, LineTable.positionOf_natCast t .oneBasedLines n, rfl, ?_⟩
  show _ = t.unitColumn ((n : ℤ) - (n - (LineTable.ofText t .oneBasedLines).lineStart n + 0)) n
  rw [hcolumn]
  rfl

theorem offsetOfUnits_entryIn (hp : 0 ≤ p.offset ∧ p.offset ≤ t.length) :
    t.offsetOfUnits ((LineTable.ofText t .oneBasedLines).offsetOf (p.entryIn t).line 0)
      (p.entryIn t).column = .ok p.offset := by
  obtain ⟨offset, source, line, column, name⟩ := p
  obtain ⟨n, rfl⟩ := Int.eq_ofNat_of_zero_le hp.1
  exact LineTable.offsetOfUnits_lineColumn t (Int.ofNat_le.mp hp.2)

/-- A point with a source and a line in it is found again from its entry, with a column of zero if it
had none. -/
theorem toPoint?_entryIn_of_sourced (hp : 0 ≤ p.offset ∧ p.offset ≤ t.length)
    (hsource : p.source.isSome) (hline : p.line.isSome) :
    (p.entryIn t).toPoint? (.ofText t .oneBasedLines) t =
      .ok (some { p with column := some (p.column.getD 0) }) := by
  obtain ⟨source, hsource⟩ := Option.isSome_iff_exists.mp hsource
  obtain ⟨line, hline⟩ := Option.isSome_iff_exists.mp hline
  have hname : (p.entryIn t).name.getD "" = p.name := by
    simp only [entryIn]
    split
    · rename_i hempty
      exact (String.toList_eq_nil_iff.mp (List.isEmpty_iff.mp hempty)).symm
    · rfl
  have hentrySource : (p.entryIn t).source = some source := hsource
  have hentryLine : (p.entryIn t).sourceLine = some line := hline
  unfold Entry.toPoint?
  simp only [hentrySource, hentryLine, offsetOfUnits_entryIn hp, hname]
  show Except.ok (some (Point.mk (min p.offset t.length) _ _ _ _)) = _
  rw [min_eq_left hp.2, ← hsource, ← hline]
  rfl

/-- **Places in a map are in the order of the offsets and lead back to them.**  The entry that is
written for a point in a text has the line of its offset, counted from one, and the column in code
units behind the start of this line.  Of two points the one further back has the greater place; the
place leads back to the offset, and loading the entry to the point. -/
theorem toEntry_embedding (hp : 0 ≤ p.offset ∧ p.offset ≤ t.length) :
    ∃ (position : Position) (e : Entry),
      (LineTable.ofText t .oneBasedLines).positionOf p.offset = .ok position ∧
      p.toEntry (.ofText t .oneBasedLines) t = .ok e ∧
      (e.line : ℤ) = position.line ∧
      e.column = t.unitColumn (p.offset - position.column) p.offset ∧
      (∀ (q : Point) (e' : Entry), 0 ≤ q.offset → q.offset ≤ t.length →
        q.toEntry (.ofText t .oneBasedLines) t = .ok e' →
        (e.place < e'.place ↔ p.offset < q.offset)) ∧
      t.offsetOfUnits ((LineTable.ofText t .oneBasedLines).offsetOf e.line 0) e.column =
        .ok p.offset ∧
      (p.source.isSome → p.line.isSome → e.toPoint? (.ofText t .oneBasedLines) t =
        .ok (some { p with column := some (p.column.getD 0) })) := by
  obtain ⟨position, hposition, hline, hcolumn⟩ := entryIn_place (t := t) hp.1
  refine ⟨position, p.entryIn t, hposition, toEntry_eq_ok hp.1, hline, hcolumn, ?_,
    offsetOfUnits_entryIn hp, toPoint?_entryIn_of_sourced hp⟩
  intro q e' hstart hstop he'
  rw [toEntry_eq_ok hstart] at he'
  obtain rfl := Except.ok.inj he'
  exact place_entryIn_lt_iff hp ⟨hstart, hstop⟩

/-- A character of two code units in front of a pair of terminators, and a letter on the next line. -/
def pairedLines : Text := ['𝄞', '\r', '\n', 'b']

/-- A point between the two terminators. -/
def between : Point := ⟨2, some "s", some 1, none, "f"⟩

/-- A point on the letter. -/
def onLetter : Point := ⟨3, none, none, none, ""⟩

theorem toEntry_embedding_between :
    (0 ≤ between.offset ∧ between.offset ≤ pairedLines.length) ∧ ∃ e e',
      between.toEntry (.ofText pairedLines .oneBasedLines) pairedLines = .ok e ∧
      onLetter.toEntry (.ofText pairedLines .oneBasedLines) pairedLines = .ok e' ∧
      e.place = toLex (1, 3) ∧ e'.place = toLex (2, 0) ∧ e.place < e'.place ∧
      pairedLines.offsetOfUnits
        ((LineTable.ofText pairedLines .oneBasedLines).offsetOf e.line 0) e.column = .ok 2 ∧
      e.toPoint? (.ofText pairedLines .oneBasedLines) pairedLines =
        .ok (some ⟨2, some "s", some 1, some 0, "f"⟩) := by
  have hinside : 0 ≤ between.offset ∧ between.offset ≤ pairedLines.length := by decide
  obtain ⟨position, e, -, he, -, -, hordered, hoffset, hpoint⟩ := toEntry_embedding hinside
  have hentry : between.toEntry (.ofText pairedLines .oneBasedLines) pairedLines =
      .ok ⟨1, 3, some "s", some 1, none, some "f", Nat.one_pos⟩ := by cbv
  have hletter : onLetter.toEntry (.ofText pairedLines .oneBasedLines) pairedLines =
      .ok ⟨2, 0, none, none, none, none, Nat.two_pos⟩ := by cbv
  obtain rfl := Except.ok.inj (he.symm.trans hentry)
  exact ⟨hinside, _, _, he, hletter, rfl, rfl,
    (hordered onLetter _ (by decide) (by decide) hletter).mpr (by decide), hoffset,
    hpoint rfl rfl⟩

end Point

end TracedText
