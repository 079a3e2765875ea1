import TracedText.Proofs.Coordinates

/-! # Columns and the characters that cover them

A column of code units is covered by the first so many characters whose units are as many.  A number
of characters is enough exactly when the characters have the units (`advance_le_iff`), and so the
offset of a column is not behind another offset exactly when the column is not beyond that of the
other (`offsetOfUnits_le_iff`): it is the same to compare columns and to compare offsets, for
columns inside a character and beyond the end of a line too.  So offsets are found from columns and
columns from offsets as in a Galois connection, and `offsetOfUnits_galois` says which offset every
column has. -/

namespace TracedText.Text
variable {t : Text}

theorem advance_nonneg (width : ℤ) (t : Text) : 0 ≤ advance width t := by
  induction t generalizing width with
  | nil => exact le_max_right width 0
  | cons c rest ih =>
      have := ih (width - unitWidth c)
      rw [advance]
      split <;> omega

/-- **So many characters cover a column exactly when they have its units.** -/
theorem advance_le_iff (width : ℤ) {count : ℕ} (h : count ≤ t.length) :
    advance width t ≤ count ↔ width ≤ units (t.take count) := by
  induction t generalizing width count with
  | nil =>
      obtain rfl : count = 0 := Nat.le_zero.mp h
      show max width 0 ≤ 0 ↔ width ≤ 0
      omega
  | cons c rest ih =>
      by_cases hwidth : width ≤ 0
      · rw [advance_of_nonpos hwidth]
        omega
      · have hnonneg := advance_nonneg (width - unitWidth c) rest
        rw [advance, if_neg hwidth]
        cases count with
        | zero =>
            rw [List.take_zero, units_nil]
            omega
        | succ count =>
            have hrest := ih (width - unitWidth c) (Nat.le_of_succ_le_succ h)
            rw [List.take_succ_cons, units_cons]
            omega

/-- **Columns are in the order of their offsets.**  The offset of a column is not behind another one
exactly when the column is not beyond the column of the other. -/
theorem offsetOfUnits_le_iff (width : ℤ) {start offset : ℕ} (h : start ≤ offset)
    (hoffset : offset ≤ t.length) :
    (∃ place, t.offsetOfUnits start width = .ok place ∧ place ≤ offset) ↔
      width ≤ t.unitColumn start offset := by
  have hlength : offset - start ≤ (t.drop start).length := by
    rw [List.length_drop]
    omega
  have hcovered := advance_le_iff width hlength
  rw [List.take_drop, Nat.add_sub_cancel' h] at hcovered
  rw [unitColumn_natCast, ← hcovered, offsetOfUnits_eq]
  constructor
  · rintro ⟨place, hplace, hle⟩
    cases hplace
    omega
  · exact fun hle => ⟨_, rfl, by omega⟩

/-! ### The offset of a column -/

theorem unitColumn_succ {start offset : ℕ} {c : Char} (h : start ≤ offset)
    (hc : t[offset]? = some c) :
    t.unitColumn start (offset + 1 : ℕ) = t.unitColumn start offset + unitWidth c := by
  have hlength : start ≤ (t.take offset).length := by
    obtain ⟨hlt, _⟩ := List.getElem?_eq_some_iff.mp hc
    rw [List.length_take]
    omega
  rw [unitColumn_natCast, unitColumn_natCast, List.take_add_one, hc, Option.toList_some,
    List.drop_append_of_le_length hlength, units_append, units_cons, units_nil, Nat.add_zero]

theorem advance_of_units_le {width : ℤ} (h : units t ≤ width) :
    advance width t = t.length + (width - units t) := by
  induction t generalizing width with
  | nil =>
      have hnonneg : 0 ≤ width := h
      show max width 0 = 0 + (width - 0)
      omega
  | cons c rest ih =>
      have hpos := unitWidth_pos c
      rw [units_cons] at h ⊢
      have hrest : advance (width - unitWidth c) rest =
          rest.length + (width - unitWidth c - units rest) := ih (by omega)
      rw [advance, if_neg (by omega), hrest, List.length_cons]
      omega

/-- A column behind the start of a character and not behind its end has the offset behind it. -/
theorem offsetOfUnits_of_within {start offset : ℕ} {width : ℤ} (h : start ≤ offset)
    (hoffset : offset < t.length) (hlt : t.unitColumn start offset < width)
    (hle : width ≤ t.unitColumn start (offset + 1 : ℕ)) :
    t.offsetOfUnits start width = .ok (offset + 1) := by
  obtain ⟨place, hplace, hupper⟩ := (offsetOfUnits_le_iff width (Nat.le_succ_of_le h) hoffset).mpr hle
  have hlower : ¬place ≤ offset := fun hback =>
    absurd ((offsetOfUnits_le_iff width h hoffset.le).mp ⟨place, hplace, hback⟩) (not_le.mpr hlt)
  rw [hplace]
  congr 1
  omega

/-- **Columns and offsets are a Galois connection.**  Behind any start in the text every column has an
offset, which is not behind another one exactly when the column is not beyond the column of the other.
So a column that is that of an offset leads back to it, one inside a character of two code units leads
to its end, one in front of the start leads to the start, and one beyond the end of the text leads as
many characters behind it. -/
theorem offsetOfUnits_galois {start : ℕ} (h : start ≤ t.length) :
    (∀ width : ℤ, ∃ place, t.offsetOfUnits start width = .ok place ∧
      (∀ offset : ℕ, start ≤ offset → offset ≤ t.length →
        (place ≤ offset ↔ width ≤ t.unitColumn start offset)) ∧
      (width ≤ 0 → place = start) ∧
      (t.unitColumn start t.length < width →
        place = t.length + (width - t.unitColumn start t.length))) ∧
    (∀ offset : ℕ, start ≤ offset → offset ≤ t.length →
      t.offsetOfUnits start (t.unitColumn start offset) = .ok offset) ∧
    ∀ (offset : ℕ) (c : Char), start ≤ offset → t[offset]? = some c → 0xFFFF < c.val →
      t.unitColumn start (offset + 1 : ℕ) = t.unitColumn start offset + 2 ∧
      t.offsetOfUnits start (t.unitColumn start offset + 1) = .ok (offset + 1) := by
  refine ⟨fun width => ⟨_, offsetOfUnits_eq t start width, ?_, ?_, ?_⟩,
    fun offset => offsetOfUnits_unitColumn, ?_⟩
  · intro offset hstart hoffset
    rw [← offsetOfUnits_le_iff width hstart hoffset, offsetOfUnits_eq]
    exact ⟨fun hle => ⟨_, rfl, hle⟩, fun ⟨_, hplace, hle⟩ => Except.ok.inj hplace ▸ hle⟩
  · intro hwidth
    rw [advance_of_nonpos hwidth, Int.add_zero]
  · intro hwidth
    rw [unitColumn_natCast, List.take_length] at hwidth ⊢
    rw [advance_of_units_le hwidth.le, List.length_drop]
    omega
  · intro offset c hstart hc hwide
    have hsucc := unitColumn_succ hstart hc
    rw [unitWidth, if_pos hwide] at hsucc
    obtain ⟨hoffset, _⟩ := List.getElem?_eq_some_iff.mp hc
    exact ⟨hsucc, offsetOfUnits_of_within hstart hoffset (by omega) (by omega)⟩

/-- A character of two code units between two letters. -/
def clefBetween : Text := ['a', '𝄞', 'b']

theorem offsetOfUnits_galois_clefBetween :
    1 ≤ clefBetween.length ∧ clefBetween.unitColumn 1 2 = 2 ∧
      clefBetween.offsetOfUnits 1 1 = .ok 2 ∧ clefBetween.offsetOfUnits 1 2 = .ok 2 ∧
      clefBetween.offsetOfUnits 1 (-4) = .ok 1 ∧ clefBetween.offsetOfUnits 1 7 = .ok 7 := by
  have hstart : 1 ≤ clefBetween.length := by decide
  obtain ⟨hconnected, hback, hinside⟩ := offsetOfUnits_galois hstart
  obtain ⟨hcolumn, hpair⟩ := hinside 1 '𝄞' (le_refl 1) rfl (by decide)
  obtain ⟨front, hfront, -, hnonpos, -⟩ := hconnected (-4)
  obtain ⟨behind, hbehind, -, -, hbeyond⟩ := hconnected 7
  rw [hnonpos (by decide)] at hfront
  rw [hbeyond (by decide)] at hbehind
  exact ⟨hstart, hcolumn, hpair, hback 2 (by decide) (by decide), hfront, hbehind⟩

end TracedText.Text
