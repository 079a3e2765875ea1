import Mathlib.Data.Int.Notation
import Mathlib.Data.List.Basic
import TracedText.Map.Vlq

/-! # Spelled quantities read back

`decode_encode` says that a list of integers is read back from its spelling.  It rests on
`numbers?_digits`, the same for the digits of one number in front of others, and on the digits being
spelled by characters of their own (`digit?_digitChar`). -/

namespace TracedText.Vlq

/-! ### Digits -/

theorem digit?_digitChar_all : ∀ d < 64, digit? (digitChar d) = some d := by decide

theorem digit?_digitChar {d : ℕ} (h : d < 64) : digit? (digitChar d) = some d :=
  digit?_digitChar_all d h

theorem digit?_lt {c : Char} {d : ℕ} (h : digit? c = some d) : d < 64 := by
  obtain ⟨hlt, _⟩ := List.findIdx?_eq_some_iff_getElem.mp h
  exact hlt

theorem digits_lt (n : ℕ) : ∀ d ∈ digits n, d < 64 := by
  induction n using Nat.strongRecOn with
  | ind n ih =>
      rw [digits]
      split
      · intro d hd
        rw [List.mem_singleton.mp hd]
        omega
      · intro d hd
        rcases List.mem_cons.mp hd with rfl | hd
        · omega
        · exact ih (n / 32) (by omega) d hd

theorem digits_ne_nil (n : ℕ) : digits n ≠ [] := by
  rw [digits]
  split <;> exact List.cons_ne_nil _ _

theorem numbers?_digits (n : ℕ) (rest : List ℕ) :
    numbers? (digits n ++ rest) = (numbers? rest).map (n :: ·) := by
  induction n using Nat.strongRecOn with
  | ind n ih =>
      rw [digits]
      split
      · rename_i hsmall
        rw [List.singleton_append, numbers?]
        cases numbers? rest with
        | none => rfl
        | some numbers => simp only [if_pos hsmall, Option.map_some]
      · rename_i hlarge
        rw [List.cons_append, numbers?, ih (n / 32) (by omega)]
        cases numbers? rest with
        | none => rfl
        | some numbers =>
            have hmarked : ¬n % 32 + 32 < 32 := by omega
            have hvalue : n % 32 + 32 - 32 + 32 * (n / 32) = n := by omega
            simp only [Option.map_some, if_neg hmarked, hvalue]

theorem numbers?_flatMap_digits (ns : List ℕ) : numbers? (ns.flatMap digits) = some ns := by
  induction ns with
  | nil => rfl
  | cons n rest ih => rw [List.flatMap_cons, numbers?_digits, ih, Option.map_some]

/-! ### Spellings -/

theorem encode_eq_map_digits (values : List ℤ) :
    encode values = ((values.map signed).flatMap digits).map digitChar := by
  rw [encode, List.map_flatMap, List.flatMap_map]
  rfl

theorem isSome_digit?_of_mem_encode {values : List ℤ} {c : Char} (h : c ∈ encode values) :
    (digit? c).isSome := by
  rw [encode_eq_map_digits] at h
  obtain ⟨d, hd, rfl⟩ := List.mem_map.mp h
  obtain ⟨n, _, hd⟩ := List.mem_flatMap.mp hd
  rw [digit?_digitChar (digits_lt n d hd)]
  rfl

theorem notMem_encode {c : Char} (h : digit? c = none) (values : List ℤ) : c ∉ encode values := by
  intro hc
  have hsome := isSome_digit?_of_mem_encode hc
  rw [h] at hsome
  cases hsome

theorem encode_cons_ne_nil (value : ℤ) (rest : List ℤ) : encode (value :: rest) ≠ [] := by
  rw [encode, List.flatMap_cons]
  intro h
  have hdigits := List.map_eq_nil_iff.mp (List.append_eq_nil_iff.mp h).1
  exact digits_ne_nil _ hdigits

/-- **What is spelled reads back.** -/
theorem decode_encode (values : List ℤ) : decode (encode values) = .ok values := by
  have hfound : (encode values).find? (fun c => (digit? c).isNone) = none := by
    rw [List.find?_eq_none]
    intro c hc
    have := isSome_digit?_of_mem_encode hc
    simpa using Option.isSome_iff_ne_none.mp this
  have hdigits : (encode values).filterMap digit? = (values.map signed).flatMap digits := by
    rw [encode_eq_map_digits, List.filterMap_map]
    rw [List.filterMap_congr (g := some), List.filterMap_some]
    intro d hd
    obtain ⟨n, _, hd⟩ := List.mem_flatMap.mp hd
    exact digit?_digitChar (digits_lt n d hd)
  simp only [decode, hfound, hdigits, numbers?_flatMap_digits, List.map_map, Function.comp_def,
    unsigned_signed, List.map_id']

end TracedText.Vlq
