import Mathlib.Algebra.Order.BigOperators.Group.List
import TracedText.Proofs.Runs

/-! # Shortest spellings

A run of digits may spell its integer at greater length than `encode` does, with digits of zero at its
end, and zero may be spelled as its own negative.  No other text than the one that `encode` gives
spells integers as shortly (`encode_shortest`).  The runs of a text are compared one by one with the
spellings of their integers (`IsRun.spelled_or_padded`), since no run is shorter than the spelling of
its integer (`IsRun.length_encodeValue_le`). -/

namespace TracedText.Vlq

variable {c : Char} {d : ℕ} {text run : Text}

/-! ### Runs and the spellings of their integers -/

/-- The run has several digits, and the last of them is zero. -/
def Padded (run : Text) : Prop := 1 < run.length ∧ run.getLast? = some 'A'

theorem digitChar_of_digit? (h : digit? c = some d) : digitChar d = c := by
  obtain ⟨hlt, hc, _⟩ := List.idxOf?_eq_some_iff.mp h
  rw [digitChar, List.getD_eq_getElem?_getD, List.getElem?_eq_getElem hlt, Option.getD_some, hc]

theorem digits_of_lt {n : ℕ} (h : n < 32) : digits n = [n] := by rw [digits, if_pos h]

theorem digits_of_le {n : ℕ} (h : 32 ≤ n) : digits n = (n % 32 + 32) :: digits (n / 32) := by
  rw [digits, if_neg (Nat.not_lt.mpr h)]

namespace IsRun

theorem ne_nil (h : IsRun run) : run ≠ [] := by
  cases h <;> exact List.cons_ne_nil _ _

theorem getLast?_cons (h : IsRun run) (c : Char) : (c :: run).getLast? = run.getLast? := by
  obtain ⟨other, rest, rfl⟩ := List.exists_cons_of_ne_nil h.ne_nil
  exact List.getLast?_cons_cons

theorem padded_cons_iff (h : IsRun run) (c : Char) :
    Padded (c :: run) ↔ run.getLast? = some 'A' := by
  have hpos := List.length_pos_iff.mpr h.ne_nil
  rw [Padded, h.getLast?_cons, List.length_cons]
  exact and_iff_right (by omega)

theorem getLast?_of_zero (h : IsRun run) (hzero : runNumber run = 0) : run.getLast? = some 'A' := by
  induction h with
  | @last c d hd hlast =>
      rw [runNumber_singleton hd, Nat.mod_eq_of_lt hlast] at hzero
      rw [List.getLast?_singleton, ← digitChar_of_digit? hd, hzero]
      rfl
  | @more c d run hd hmarked hrun ih =>
      rw [runNumber_cons hd] at hzero
      rw [hrun.getLast?_cons, ih (by omega)]

theorem zero_of_not_padded (h : IsRun run) (hpadded : ¬Padded run)
    (hlast : run.getLast? = some 'A') : runNumber run = 0 := by
  cases h with
  | @last c d hd _ =>
      have hc : c = 'A' := Option.some.inj hlast
      have hdigit : digit? 'A' = some 0 := rfl
      rw [hc, hdigit] at hd
      rw [hc, runNumber_singleton hdigit]
  | more hd hmarked hrun =>
      rw [hrun.getLast?_cons] at hlast
      exact absurd ((hrun.padded_cons_iff _).mpr hlast) hpadded

/-- **A run is the spelling of its number, or it is padded and longer.** -/
theorem spelled_or_padded (h : IsRun run) :
    (digits (runNumber run)).map digitChar = run ∧ ¬Padded run ∨
      (digits (runNumber run)).length < run.length ∧ Padded run := by
  induction h with
  | @last c d hd hlast =>
      refine Or.inl ⟨?_, fun hpadded => absurd hpadded.1 (by simp)⟩
      rw [runNumber_singleton hd, Nat.mod_eq_of_lt hlast, digits_of_lt hlast, List.map_singleton,
        digitChar_of_digit? hd]
  | @more c d run hd hmarked hrun ih =>
      have hlt := digit?_lt hd
      have hpos := List.length_pos_iff.mpr hrun.ne_nil
      rw [hrun.padded_cons_iff, List.length_cons, runNumber_cons hd]
      by_cases hzero : runNumber run = 0
      · -- The digits behind the first add nothing, so the first is enough.
        right
        rw [hzero, digits_of_lt (by omega), List.length_singleton]
        exact ⟨by omega, hrun.getLast?_of_zero hzero⟩
      · -- The first digit is the lowest group with its mark, and the others are those of the rest.
        have hrem : (d % 32 + 32 * runNumber run) % 32 + 32 = d := by omega
        have hquot : (d % 32 + 32 * runNumber run) / 32 = runNumber run := by omega
        rw [digits_of_le (by omega), hrem, hquot, List.map_cons, digitChar_of_digit? hd,
          List.length_cons]
        rcases ih with ⟨hspelled, hpadded⟩ | ⟨hlonger, hpadded⟩
        · left
          rw [hspelled]
          refine ⟨rfl, fun hlast => ?_⟩
          exact hzero (hrun.zero_of_not_padded hpadded hlast)
        · exact Or.inr ⟨by omega, hpadded.2⟩

end IsRun

/-! ### Shortest spellings -/

theorem signed_unsigned {n : ℕ} (h : n ≠ 1) : signed (unsigned n) = n := by
  unfold signed unsigned
  simp only
  split <;> split <;> omega

theorem encodeValue_of_one (hone : runNumber run = 1) : encodeValue (runValue run) = ['A'] := by
  have hzero : signed (unsigned 1) = 0 := rfl
  rw [encodeValue, runValue, hone, hzero, digits_of_lt (by decide)]
  rfl

theorem encodeValue_of_ne_one (hone : runNumber run ≠ 1) :
    encodeValue (runValue run) = (digits (runNumber run)).map digitChar := by
  rw [encodeValue, runValue, signed_unsigned hone]

namespace IsRun

/-- The only negative zero that is not padded has one digit. -/
theorem eq_negativeZero (h : IsRun run) (hone : runNumber run = 1) (hpadded : ¬Padded run) :
    run = ['B'] := by
  rcases h.spelled_or_padded with ⟨hspelled, _⟩ | ⟨_, hpadded'⟩
  · rw [← hspelled, hone, digits_of_lt (by decide)]
    rfl
  · exact absurd hpadded' hpadded

/-- **A run is the spelling of its integer unless it is padded or a negative zero.** -/
theorem encodeValue_eq_iff (h : IsRun run) :
    encodeValue (runValue run) = run ↔ ¬Padded run ∧ run ≠ ['B'] := by
  by_cases hone : runNumber run = 1
  · rw [encodeValue_of_one hone]
    refine iff_of_false ?_ fun hshort => hshort.2 (h.eq_negativeZero hone hshort.1)
    rintro rfl
    exact absurd hone (by decide)
  · rw [encodeValue_of_ne_one hone]
    rcases h.spelled_or_padded with ⟨hspelled, hpadded⟩ | ⟨hlonger, hpadded⟩
    · refine iff_of_true hspelled ⟨hpadded, ?_⟩
      rintro rfl
      exact hone rfl
    · refine iff_of_false (fun hspelled => ?_) fun hshort => hshort.1 hpadded
      have hlength := congrArg List.length hspelled
      rw [List.length_map] at hlength
      omega

theorem length_encodeValue_lt (h : IsRun run) (hpadded : Padded run) :
    (encodeValue (runValue run)).length < run.length := by
  by_cases hone : runNumber run = 1
  · rw [encodeValue_of_one hone]
    exact hpadded.1
  · rw [encodeValue_of_ne_one hone, List.length_map]
    rcases h.spelled_or_padded with ⟨_, hpadded'⟩ | ⟨hlonger, _⟩
    · exact absurd hpadded hpadded'
    · exact hlonger

theorem length_encodeValue_le (h : IsRun run) :
    (encodeValue (runValue run)).length ≤ run.length := by
  by_cases hpadded : Padded run
  · exact (h.length_encodeValue_lt hpadded).le
  by_cases hzero : run = ['B']
  · rw [hzero, encodeValue_of_one rfl]
    exact le_refl 1
  · rw [h.encodeValue_eq_iff.mpr ⟨hpadded, hzero⟩]

end IsRun

/-- When parts are put in place of others and none is longer, the whole stays the same only if every
part does. -/
theorem flatMap_eq_flatten_iff {f : Text → Text} {parts : List Text}
    (h : ∀ part ∈ parts, (f part).length ≤ part.length) :
    parts.flatMap f = parts.flatten ↔ ∀ part ∈ parts, f part = part := by
  induction parts with
  | nil => simp
  | cons part others ih =>
      obtain ⟨hpart, hothers⟩ := List.forall_mem_cons.mp h
      rw [List.flatMap_cons, List.flatten_cons, List.forall_mem_cons, ← ih hothers]
      constructor
      · intro heq
        have hlength := congrArg List.length heq
        have hshorter : (others.flatMap f).length ≤ others.flatten.length := by
          rw [List.length_flatMap, List.length_flatten]
          exact List.sum_le_sum hothers
        rw [List.length_append, List.length_append] at hlength
        exact List.append_inj heq (by omega)
      · rintro ⟨hpart, hothers⟩
        rw [hpart, hothers]

section
variable {parts : List Text}

theorem encode_map_runValue (parts : List Text) :
    encode (parts.map runValue) = parts.flatMap fun run => encodeValue (runValue run) := by
  rw [encode, List.flatMap_map]

theorem length_encode_le (h : ∀ run ∈ parts, IsRun run) :
    (encode (parts.map runValue)).length ≤ parts.flatten.length := by
  rw [encode_map_runValue, List.length_flatMap, List.length_flatten]
  exact List.sum_le_sum fun run hrun => (h run hrun).length_encodeValue_le

theorem length_encode_lt (h : ∀ run ∈ parts, IsRun run) (hpadded : ∃ run ∈ parts, Padded run) :
    (encode (parts.map runValue)).length < parts.flatten.length := by
  obtain ⟨run, hrun, hpadded⟩ := hpadded
  rw [encode_map_runValue, List.length_flatMap, List.length_flatten]
  exact List.sum_lt_sum _ _ (fun run hrun => (h run hrun).length_encodeValue_le)
    ⟨run, hrun, (h run hrun).length_encodeValue_lt hpadded⟩

theorem encode_eq_flatten_iff (h : ∀ run ∈ parts, IsRun run) :
    encode (parts.map runValue) = parts.flatten ↔ ∀ run ∈ parts, ¬Padded run ∧ run ≠ ['B'] := by
  rw [encode_map_runValue, flatMap_eq_flatten_iff fun run hrun => (h run hrun).length_encodeValue_le]
  exact forall₂_congr fun run hrun => (h run hrun).encodeValue_eq_iff

end

/-- **Spellings are the shortest texts that are read as their integers.**  What is spelled is read
back, so lists of integers with one spelling are the same.  The spelling of what a text is read as is
no longer than the text, and it is the text exactly when no run of the text is padded or a negative
zero; a text without a negative zero that is no longer than the spelling is the spelling. -/
theorem encode_shortest :
    (∀ values, decode (encode values) = .ok values) ∧
    (∀ text values, decode text = .ok values →
      (encode values).length ≤ text.length ∧
      (encode values = text ↔ ∀ run ∈ runs text, ¬Padded run ∧ run ≠ ['B']) ∧
      (text.length ≤ (encode values).length → ['B'] ∉ runs text → text = encode values)) ∧
    Function.Injective encode := by
  refine ⟨decode_encode, fun text values hvalues => ?_, fun values others h => ?_⟩
  · obtain ⟨hdigits, hcomplete, rfl⟩ := decode_eq_ok_iff.mp hvalues
    have hruns := isRun_of_mem_runs hdigits hcomplete
    have hspelled := encode_eq_flatten_iff hruns
    have hle := length_encode_le hruns
    have hlt := length_encode_lt hruns
    rw [flatten_runs] at hspelled hle hlt
    refine ⟨hle, hspelled, fun hlength hzero => (hspelled.mpr fun run hrun => ⟨?_, ?_⟩).symm⟩
    · intro hpadded
      exact absurd (hlt ⟨run, hrun, hpadded⟩) (Nat.not_lt.mpr hlength)
    · rintro rfl
      exact hzero hrun
  · have hread := decode_encode values
    rw [h, decode_encode] at hread
    exact (Except.ok.inj hread).symm

/-- A padded zero, a negative zero and sixteen. -/
theorem encode_shortest_padded :
    decode ['g', 'A', 'B', 'g', 'B'] = .ok [0, 0, 16] ∧
      (encode [0, 0, 16]).length ≤ 5 ∧ encode [0, 0, 16] ≠ ['g', 'A', 'B', 'g', 'B'] ∧
      decode ['g', 'B'] = .ok [16] ∧ encode [16] = ['g', 'B'] := by
  have hpadded : decode ['g', 'A', 'B', 'g', 'B'] = .ok [0, 0, 16] := rfl
  have hshort : decode ['g', 'B'] = .ok [16] := rfl
  obtain ⟨hle, hspelled, -⟩ := encode_shortest.2.1 _ _ hpadded
  obtain ⟨-, -, hunique⟩ := encode_shortest.2.1 _ _ hshort
  refine ⟨hpadded, hle, fun heq => ?_, hshort, (hunique ?_ ?_).symm⟩
  · exact (hspelled.mp heq ['B'] (by decide)).2 rfl
  · exact le_of_eq (by cbv)
  · decide

end TracedText.Vlq
