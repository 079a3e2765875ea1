import Mathlib.Data.Nat.Notation
import TracedText.Text.Encoding

/-! # Encodings told from bytes

A text that starts with an ASCII character and holds no zero is read back when its encoding has to
be guessed (`ofGuessed?_toUtf8`): no byte of it is zero, and the first is none that a byte-order
mark starts with. -/

namespace TracedText

/-! ### Bytes of texts -/

theorem toList_toUtf8 (t : Text) : t.toUtf8.data.toList = t.flatMap String.utf8EncodeChar := by
  rw [Text.toUtf8, String.toUTF8_eq_toByteArray, String.toByteArray_ofList, List.utf8Encode]
  exact congrArg Array.toList List.data_toByteArray

/-- A byte of a character is the character itself or none of ASCII. -/
theorem mem_utf8EncodeChar {c : Char} {b : UInt8} (h : b ∈ String.utf8EncodeChar c) :
    b.toNat = c.toNat ∨ 0x80 ≤ b.toNat := by
  have hhigh (n m : ℕ) (hn : 0x80 ≤ n) (hm : m + n < 0x100) :
      0x80 ≤ (UInt8.ofNat (m + n)).toNat := by
    rw [UInt8.toNat_ofNat', Nat.mod_eq_of_lt hm]
    omega
  revert h
  fun_cases String.utf8EncodeChar
  · intro h
    rw [List.mem_singleton.mp h, UInt8.toNat_ofNat', Nat.mod_eq_of_lt (by omega)]
    exact .inl rfl
  · intro h
    simp only [List.mem_cons, List.not_mem_nil, or_false] at h
    rcases h with rfl | rfl
    · exact .inr (hhigh _ _ (by decide) (by omega))
    · exact .inr (hhigh _ _ (by decide) (by omega))
  · intro h
    simp only [List.mem_cons, List.not_mem_nil, or_false] at h
    rcases h with rfl | rfl | rfl
    · exact .inr (hhigh _ _ (by decide) (by omega))
    · exact .inr (hhigh _ _ (by decide) (by omega))
    · exact .inr (hhigh _ _ (by decide) (by omega))
  · intro h
    simp only [List.mem_cons, List.not_mem_nil, or_false] at h
    rcases h with rfl | rfl | rfl | rfl
    · exact .inr (hhigh _ _ (by decide) (by omega))
    · exact .inr (hhigh _ _ (by decide) (by omega))
    · exact .inr (hhigh _ _ (by decide) (by omega))
    · exact .inr (hhigh _ _ (by decide) (by omega))

theorem zero_notMem_toUtf8 {t : Text} (h : '\x00' ∉ t) : 0 ∉ t.toUtf8.data.toList := by
  intro hzero
  rw [toList_toUtf8, List.mem_flatMap] at hzero
  obtain ⟨c, hc, hzero⟩ := hzero
  rcases mem_utf8EncodeChar hzero with hsame | hhigh
  · have hnull : c = '\x00' := Char.ext (UInt32.toNat_inj.mp hsame.symm)
    exact h (hnull ▸ hc)
  · exact absurd hhigh (by decide)

theorem toList_toUtf8_cons {c : Char} (h : c.toNat < 0x80) (t : Text) :
    (Text.toUtf8 (c :: t)).data.toList = UInt8.ofNat c.toNat :: t.toUtf8.data.toList := by
  have hchar : String.utf8EncodeChar c = [UInt8.ofNat c.toNat] := by
    have hone : c.val.toNat ≤ 0x7F := Nat.le_of_lt_succ h
    rw [String.utf8EncodeChar, if_pos hone]
    rfl
  rw [toList_toUtf8, List.flatMap_cons, hchar, ← toList_toUtf8]
  rfl

/-! ### Guessing -/

theorem ofZeros_eq_utf8 {bytes : List UInt8} (h : 0 ∉ bytes) : Encoding.ofZeros bytes = .utf8 := by
  unfold Encoding.ofZeros
  split
  all_goals first | rfl | exact absurd (by simp) h

theorem guess_eq_utf8 {first : UInt8} {bytes : List UInt8} (hfirst : first.toNat < 0x80)
    (h : 0 ∉ first :: bytes) : Encoding.guess (first :: bytes) = (.utf8, first :: bytes) := by
  have hmark {mark : UInt8} {rest : List UInt8} (hmark : ¬ mark.toNat < 0x80) :
      first :: bytes ≠ mark :: rest := by
    intro heq
    rw [(List.cons.inj heq).1] at hfirst
    exact hmark hfirst
  unfold Encoding.guess
  split
  · rename_i heq
    exact absurd (heq ▸ List.mem_cons_self) h
  · exact absurd ‹_› (hmark (by decide))
  · exact absurd ‹_› (hmark (by decide))
  · exact absurd ‹_› (hmark (by decide))
  · exact absurd ‹_› (hmark (by decide))
  · rw [ofZeros_eq_utf8 h]

/-- **A text is read back when its encoding is guessed.** -/
theorem Text.ofGuessed?_toUtf8 {c : Char} (hc : c.toNat < 0x80) {t : Text}
    (h : '\x00' ∉ c :: t) : Text.ofGuessed? (Text.toUtf8 (c :: t)) = some (c :: t) := by
  have hbytes := toList_toUtf8_cons hc t
  have hzero := zero_notMem_toUtf8 h
  have hfirst : (UInt8.ofNat c.toNat).toNat < 0x80 := by
    rw [UInt8.toNat_ofNat', Nat.mod_eq_of_lt (by omega)]
    exact hc
  rw [hbytes] at hzero
  have hguess : Encoding.guess (Text.toUtf8 (c :: t)).data.toList =
      (.utf8, (Text.toUtf8 (c :: t)).data.toList) := by
    rw [hbytes]
    exact guess_eq_utf8 hfirst hzero
  rw [Text.ofGuessed?, hguess]
  show Text.ofLooseUtf8? (Text.toUtf8 (c :: t)) = _
  rw [Text.ofLooseUtf8?, Text.ofUtf8?_toUtf8]

end TracedText
