import Mathlib.Data.Int.Notation
import Mathlib.Data.List.Basic
import TracedText.Proofs.Outcomes
import TracedText.Session.Failure

/-! # Messages that can be said

A message can be said when its numbers are short enough and it shows nothing that stands too deep.
Then the failure is told with its words (`told_of_sayable`); when a number in the message is too
long, another failure is told in its place (`told_of_longNumber`). -/

namespace TracedText

/-- The piece can be put into words. -/
def Piece.Sayable : Piece → Prop
  | .words _ => True
  | .number n => n.natAbs < Nat.pow 10 Bounds.digits
  | .tooDeep => False

/-- All pieces of the message can be put into words. -/
def Message.Sayable (m : Message) : Prop := ∀ piece ∈ m, piece.Sayable

@[simp] theorem Piece.sayable_words (s : String) : (Piece.words s).Sayable := trivial

theorem Piece.sayable_natCast (n : ℕ) :
    (Piece.number n).Sayable ↔ n < Nat.pow 10 Bounds.digits := Iff.rfl

/-- The first number that is too long for words has more than one digit.  It is generalised here,
since it is too long to be written out. -/
theorem ten_le_pow_digits : 10 ≤ Nat.pow 10 Bounds.digits := by
  have hpow {digits : ℕ} (h : digits ≠ 0) : 10 ≤ Nat.pow 10 digits := Nat.le_self_pow h 10
  exact hpow (by decide)

theorem lt_pow_digits {n : ℕ} (h : n < 10) : n < Nat.pow 10 Bounds.digits :=
  Nat.lt_of_lt_of_le h ten_le_pow_digits

theorem Piece.sayable_of_lt_ten {n : ℤ} (h : n.natAbs < 10) : (Piece.number n).Sayable :=
  lt_pow_digits h

@[simp] theorem Message.sayable_nil : Message.Sayable [] := nofun

@[simp] theorem Message.sayable_cons {piece : Piece} {m : Message} :
    Message.Sayable (piece :: m) ↔ piece.Sayable ∧ m.Sayable := List.forall_mem_cons

theorem Piece.reason_of_text {piece : Piece} {reason : Unsayable} (h : piece.text = .error reason)
    (hdeep : piece ≠ .tooDeep) : reason = .longNumber := by
  cases piece with
  | words s => cases h
  | number n =>
      simp only [Piece.text] at h
      split at h
      · cases h
      · exact (Except.error.inj h).symm
  | tooDeep => exact absurd rfl hdeep

/-- What the piece says, however long it is. -/
def Piece.said : Piece → Text
  | .words s => s.toList
  | .number n => integerText n
  | .tooDeep => []

theorem Piece.text_of_sayable {piece : Piece} (h : piece.Sayable) : piece.text = .ok piece.said := by
  cases piece with
  | words s => rfl
  | number n =>
      simp only [Piece.text]
      exact if_pos h
  | tooDeep => exact h.elim

theorem Piece.text_eq_ok_iff {piece : Piece} :
    (∃ text, piece.text = .ok text) ↔ piece.Sayable := by
  refine ⟨?_, fun h => ⟨piece.said, text_of_sayable h⟩⟩
  rintro ⟨text, h⟩
  cases piece with
  | words s => trivial
  | number n =>
      simp only [Piece.text] at h
      split at h
      · assumption
      · cases h
  | tooDeep => cases h

theorem integerText_natCast (n : ℕ) : integerText n = (toString n).toList := by
  have hnonneg : ¬((n : ℤ) < 0) := by omega
  have hdigits : toString n = String.ofList (Nat.toDigits 10 n) := rfl
  rw [integerText, if_neg hnonneg, Int.natAbs_natCast, hdigits, String.toList_ofList]

namespace Message
variable {m : Message}

/-- What the message says, however long its numbers are. -/
def said (m : Message) : String := String.ofList (m.flatMap Piece.said)

theorem render_of_sayable (h : m.Sayable) : m.render = .ok m.said := by
  rw [render, mapM_ok_map fun piece hpiece => Piece.text_of_sayable (h piece hpiece), said,
    List.flatMap_def]
  rfl

theorem render_eq_ok_iff : (∃ words, m.render = .ok words) ↔ m.Sayable := by
  constructor
  · rintro ⟨words, h⟩
    obtain ⟨texts, htexts, _⟩ := map_eq_ok.mp h
    intro piece hpiece
    obtain ⟨text, htext⟩ := exists_of_mapM_eq_ok htexts hpiece
    exact Piece.text_eq_ok_iff.mp ⟨text, htext⟩
  · exact fun h => ⟨m.said, render_of_sayable h⟩

theorem render_words (parts : List String) :
    Message.render (parts.map Piece.words) = .ok (String.join parts) := by
  have htexts : (parts.map Piece.words).mapM Piece.text = .ok (parts.map String.toList) := by
    rw [mapM_eq_ok, List.forall₂_map_left_iff, List.forall₂_map_right_iff]
    exact List.forall₂_same.mpr fun _ _ => rfl
  have hjoin : String.ofList (parts.map String.toList).flatten = String.join parts := by
    rw [← String.toList_inj, String.toList_ofList, String.toList_join, List.flatMap_def]
  rw [render, htexts, ← hjoin]
  rfl

end Message

namespace Failure
variable {failure : Failure} {m : Message}

theorem told_said (hm : failure.message = some m) (h : m.Sayable) :
    failure.told = (failure, some m.said) := by
  rw [told, hm, Option.map_some, Message.render_of_sayable h]

theorem told_of_sayable (hm : failure.message = some m) (h : m.Sayable) :
    ∃ words, failure.told = (failure, some words) := ⟨m.said, told_said hm h⟩

/-- In place of a failure whose message cannot be said the reason is told. -/
theorem told_of_not_sayable (hm : failure.message = some m) (h : ¬m.Sayable) :
    ∃ reason, failure.told = (.unsayable reason, none) := by
  cases hrender : m.render with
  | error reason => exact ⟨reason, by rw [told, hm, Option.map_some, hrender]⟩
  | ok words => exact absurd (Message.render_eq_ok_iff.mp ⟨words, hrender⟩) h

/-- When nothing in the message stands too deep, the reason is a number that is too long. -/
theorem told_of_long (hm : failure.message = some m) (hdeep : Piece.tooDeep ∉ m) (h : ¬m.Sayable) :
    failure.told = (.unsayable .longNumber, none) := by
  cases hrender : m.render with
  | ok words => exact absurd (Message.render_eq_ok_iff.mp ⟨words, hrender⟩) h
  | error reason =>
      obtain ⟨piece, hpiece, hreason⟩ := exists_of_mapM_eq_error (map_eq_error.mp hrender)
      obtain rfl := Piece.reason_of_text hreason fun h => hdeep (h ▸ hpiece)
      rw [told, hm, Option.map_some, hrender]

/-- In place of a failure the reason is told when a number in its message is too long. -/
theorem told_of_longNumber (front : Message) (n : ℤ) {rest : Message}
    (hm : failure.message = some (front ++ .number n :: rest)) (hfront : front.Sayable)
    (hn : Nat.pow 10 Bounds.digits ≤ n.natAbs) :
    failure.told = (.unsayable .longNumber, none) := by
  have hnumber : (Piece.number n).text = .error .longNumber := by
    simp only [Piece.text]
    rw [if_neg (Nat.not_lt.mpr hn)]
  have hsaid : front.mapM Piece.text = .ok (front.map Piece.said) :=
    mapM_ok_map fun piece hpiece => Piece.text_of_sayable (hfront piece hpiece)
  have hrender : Message.render (front ++ .number n :: rest) = .error .longNumber := by
    rw [Message.render, List.mapM_append, hsaid, List.mapM_cons, hnumber]
    rfl
  rw [told, hm, Option.map_some, hrender]

end Failure

end TracedText
