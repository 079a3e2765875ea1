import TracedText.Disk.Basic
import TracedText.Text.Encoding

/-! # Writing through a medium

What stands on a disk does not settle whether it can be written to: a directory may be closed to the
writer, the room may give out in the middle of a file, and a text with surrogates that stand alone has
no bytes. A `Medium` decides these things. It may refuse any part of the work, and a file that it has
begun to write may be left with any bytes. But nothing except directories is made on the way to a
file, and no file is touched except the one that is written: there are no links, and no other writer.

`Medium.plain` refuses nothing that the disk itself allows. -/

namespace TracedText

namespace Disk

/-! ### Disks with more directories -/

/-- Directories were made where nothing stood, and nothing else was changed. -/
def Grows (d made : Disk) : Prop := ∀ l, made l = d l ∨ d l = none ∧ made l = some .directory

variable {d made : Disk}

theorem Grows.refl (d : Disk) : Grows d d := fun _ => Or.inl rfl

theorem Grows.trans {ready : Disk} (h : Grows d made) (hready : Grows made ready) :
    Grows d ready := by
  intro l
  rcases h l with hsame | ⟨hnone, hmade⟩
  · rw [← hsame]
    exact hready l
  · refine Or.inr ⟨hnone, ?_⟩
    rcases hready l with hsame | ⟨hmissing, _⟩
    · rw [hsame, hmade]
    · rw [hmade] at hmissing
      exact nomatch hmissing

theorem set_grows {location : Location} (h : d location = none) :
    Grows d (d.set location .directory) := by
  intro l
  by_cases hl : l = location
  · subst hl
    exact Or.inr ⟨h, set_same d l .directory⟩
  · exact Or.inl (set_ne d .directory hl)

theorem makeDirectory_grows {p : Path} (h : d.makeDirectory p = .ok made) : Grows d made := by
  unfold makeDirectory at h
  cases hlocation : d.locate p with
  | error error =>
      rw [hlocation] at h
      exact nomatch h
  | ok location =>
      rw [hlocation] at h
      cases hnode : d location with
      | some node =>
          simp only [bind, Except.bind, hnode] at h
          exact nomatch h
      | none =>
          simp only [bind, Except.bind, hnode] at h
          rw [← Except.ok.inj h]
          exact set_grows hnode

theorem ensureDirectory_grows {p : Path} (h : d.ensureDirectory p = .ok made) : Grows d made := by
  unfold ensureDirectory at h
  split at h
  · rename_i hmade
    rw [← Except.ok.inj h]
    exact makeDirectory_grows hmade
  · split at h
    · rw [← Except.ok.inj h]
      exact Grows.refl d
    · exact nomatch h

theorem ensureDirectories_grows (root : PathRoot) (room : Nat) (names : List String) :
    Grows d (d.ensureDirectories root room names).2 := by
  fun_induction ensureDirectories d root room names with
  | case1 _ made h => exact ensureDirectory_grows h
  | case2 => exact Grows.refl _
  | case3 _ _ _ _ made h => exact ensureDirectory_grows h
  | case4 => exact Grows.refl _
  | case5 _ _ _ _ _ error made h ih =>
      rw [h] at ih
      exact ih
  | case6 _ _ _ _ _ made hmade complete hcomplete ih =>
      rw [hmade] at ih
      exact ih.trans (ensureDirectory_grows hcomplete)
  | case7 _ _ _ _ _ made hmade error _ ih =>
      rw [hmade] at ih
      exact ih
  | case8 => exact Grows.refl _

theorem ensureParent_grows (d : Disk) (p : Path) : Grows d (d.ensureParent p).2 :=
  ensureDirectories_grows p.root Bounds.levels p.parent.parts.reverse

end Disk

/-! ### Media -/

/-- What stands between a writer and a disk. -/
structure Medium where
  /-- Whether a text has bytes. Characters have; this is left open for a text in which one of them
  stands for a surrogate without a partner. -/
  encodes : Text → Bool
  /-- Makes the directory that a path is in, with every directory that is missing on the way. -/
  ensureParent : Disk → Path → Except DiskError Unit × Disk
  /-- Writes a file, the directory it is in being there already. -/
  put : Disk → Path → ByteArray → Except DiskError Unit × Disk
  /-- Directories are all that is made on the way to a file. -/
  ensureParent_grows : ∀ (d : Disk) (p : Path), d.Grows (ensureParent d p).2
  /-- A write that succeeds is one that the disk allows. -/
  put_ok : ∀ {d : Disk} {p bytes written}, put d p bytes = (.ok (), written) →
    d.put p bytes = .ok written
  /-- A write that fails leaves the disk, or its file with other bytes. -/
  put_error : ∀ {d : Disk} {p bytes error left}, put d p bytes = (.error error, left) →
    left = d ∨ ∃ part, d.put p part = .ok left

namespace Medium

/-- The medium that refuses only what the disk does not allow. -/
def plain : Medium where
  encodes _ := true
  ensureParent := Disk.ensureParent
  put d p bytes :=
    match d.put p bytes with
    | .ok written => (.ok (), written)
    | .error error => (.error error, d)
  ensureParent_grows := Disk.ensureParent_grows
  put_ok := by
    intro d p bytes written h
    split at h
    · rename_i hput
      rw [hput, (Prod.mk.inj h).2]
    · exact nomatch h
  put_error := by
    intro d p bytes error left h
    split at h
    · exact nomatch h
    · exact Or.inl (Prod.mk.inj h).2.symm

variable {ε : Type} (m : Medium)

/-- Writes a file, making the directories on the way to it first. Whether there are bytes to write
is asked only behind them. -/
def write (ofDisk : DiskError → ε) (d : Disk) (p : Path) (bytes : Except ε ByteArray) :
    Except ε Unit × Disk :=
  match m.ensureParent d p with
  | (.error error, made) => (.error (ofDisk error), made)
  | (.ok (), made) =>
    match bytes with
    | .error error => (.error error, made)
    | .ok bytes =>
      let (result, left) := m.put made p bytes
      (result.mapError ofDisk, left)

end Medium

end TracedText
