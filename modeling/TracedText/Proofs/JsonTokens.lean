import Mathlib.Data.Int.Notation
import Mathlib.Data.List.Basic
import Mathlib.Data.List.TakeDrop
import Mathlib.Data.Nat.Notation
import Mathlib.Tactic.SplitIfs
import TracedText.Json.Reader
import TracedText.Json.Writer
import TracedText.Proofs.Stretches

/-! # Tokens read back

What is written for a string is read as the string (`readString_escaped`), and the digits of a whole
number as the number (`readNumber_integerText`), whatever stands behind them.  Only a number may go
on in what stands behind, so this has to start with none of the characters that a number goes on
with (`Ends`). -/

namespace TracedText.Json

/-! ### Blanks -/

theorem skipSpaces_cons {c : Char} (h : isSpace c = false) (t : Text) :
    skipSpaces (c :: t) = c :: t := List.dropWhile_cons_of_neg (by rw [h]; decide)

theorem skipSpaces_append {blanks : Text} (h : ∀ c ∈ blanks, isSpace c = true) (t : Text) :
    skipSpaces (blanks ++ t) = skipSpaces t := List.dropWhile_append_of_pos h

/-! ### Strings -/

theorem zero_notMem_escapeChar (c : Char) : '\x00' ∉ escapeChar c := by
  have hdigits : ∀ n < 0x20, '\x00' ∉ hexDigits 4 n := by decide
  unfold escapeChar
  split_ifs with hself _ _ _ _ _ hcontrol
  · rcases (by simpa using hself : c = '\x22' ∨ c = '\x5c') with rfl | rfl <;> decide
  · decide
  · decide
  · decide
  · decide
  · decide
  · have := hdigits c.toNat hcontrol
    simp only [List.mem_cons, not_or]
    exact ⟨by decide, by decide, this⟩
  · intro hzero
    rw [← List.mem_singleton.mp hzero] at hcontrol
    exact hcontrol (by decide)

/-- How a character is read from what is written for it. -/
def partOf (c : Char) : StringPart :=
  if c.toNat < 0x20 ∧ c ∉ ['\x08', '\t', '\n', '\x0c', '\r'] then .unit c.toNat else .char c

theorem readParts_quote (rest : Text) : readParts ('\x22' :: rest) = some ([], rest) := by
  rw [readParts] <;> first | rfl | nofun

theorem readParts_plain {c : Char} (hquote : c ≠ '\x22') (hslash : c ≠ '\x5c')
    (hcontrol : ¬ c.toNat < 0x20) (t : Text) :
    readParts (c :: t) = (readParts t).map fun (parts, rest) => (.char c :: parts, rest) := by
  rw [readParts, if_neg (by simpa using hquote), if_neg (by simp [hslash, hcontrol])]
  · cases readParts t <;> rfl
  · intro a b c' d rest h
    exact absurd h hslash
  · intro d rest h
    exact absurd h hslash

theorem readParts_escape {c plain : Char} (h : escaped? c = some plain) (t : Text) :
    readParts ('\x5c' :: c :: t) =
      (readParts t).map fun (parts, rest) => (.char plain :: parts, rest) := by
  have hunit : c ≠ 'u' := by
    rintro rfl
    exact nomatch h
  rw [readParts, h]
  · cases readParts t <;> rfl
  · intro a b c' d rest hc
    exact absurd hc hunit

theorem readParts_unit {a b c d : Char} {n : ℕ} (h : hexValue4? a b c d = some n) (t : Text) :
    readParts ('\x5c' :: 'u' :: a :: b :: c :: d :: t) =
      (readParts t).map fun (parts, rest) => (.unit n :: parts, rest) := by
  rw [readParts, h]
  cases readParts t <;> rfl

theorem hexDigits_control :
    ∀ n < 0x20, ∃ a b c d, hexDigits 4 n = [a, b, c, d] ∧ hexValue4? a b c d = some n := by
  intro n h
  refine ⟨'0', '0', (n / 16).digitChar, (n % 16).digitChar, ?_, ?_⟩
  · revert n
    decide
  · revert n
    decide

theorem readParts_escapeChar (c : Char) (t : Text) :
    readParts (escapeChar c ++ t) =
      (readParts t).map fun (parts, rest) => (partOf c :: parts, rest) := by
  have hletter {letter : Char} (hc : partOf c = .char c) (h : escaped? letter = some c) :
      readParts ('\x5c' :: letter :: t) =
        (readParts t).map fun (parts, rest) => (partOf c :: parts, rest) := by
    rw [hc, readParts_escape h]
  unfold escapeChar
  split_ifs with hself hb ht hn hf hr hcontrol
  · rcases (by simpa using hself : c = '\x22' ∨ c = '\x5c') with rfl | rfl
    · exact hletter rfl rfl
    · exact hletter rfl rfl
  · obtain rfl := eq_of_beq hb
    exact hletter rfl rfl
  · obtain rfl := eq_of_beq ht
    exact hletter rfl rfl
  · obtain rfl := eq_of_beq hn
    exact hletter rfl rfl
  · obtain rfl := eq_of_beq hf
    exact hletter rfl rfl
  · obtain rfl := eq_of_beq hr
    exact hletter rfl rfl
  · obtain ⟨u, v, w, x, hdigits, hvalue⟩ := hexDigits_control c.toNat hcontrol
    have hpart : partOf c = .unit c.toNat := by
      rw [partOf, if_pos]
      simp_all
    rw [hdigits, hpart]
    exact readParts_unit hvalue t
  · have hpart : partOf c = .char c := by
      rw [partOf, if_neg]
      simp [hcontrol]
    simp only [beq_iff_eq, Bool.or_eq_true, not_or] at hself
    rw [hpart]
    exact readParts_plain hself.1 hself.2 hcontrol t

theorem readParts_escaped (t rest : Text) :
    readParts (t.flatMap escapeChar ++ '\x22' :: rest) = some (t.map partOf, rest) := by
  induction t with
  | nil => exact readParts_quote rest
  | cons c t ih =>
      rw [List.flatMap_cons, List.append_assoc, readParts_escapeChar, ih]
      rfl

theorem textOfParts_char (loneSurrogates : Bool) (c : Char) (parts : List StringPart) :
    textOfParts loneSurrogates (.char c :: parts) =
      (textOfParts loneSurrogates parts).map (c :: ·) := by
  rw [textOfParts]

/-- A unit in front of the surrogates is a character by itself. -/
theorem textOfParts_control (loneSurrogates : Bool) {n : ℕ} (h : n < 0x20)
    (parts : List StringPart) :
    textOfParts loneSurrogates (.unit n :: parts) =
      (textOfParts loneSurrogates parts).map (Char.ofNat n :: ·) := by
  have hhigh : isHighSurrogate n = false := by
    simp [isHighSurrogate]
    omega
  have hlow : isLowSurrogate n = false := by
    simp [isLowSurrogate]
    omega
  have hscalar : scalarChar n = Char.ofNat n := by simp [scalarChar, hhigh, hlow]
  match parts with
  | [] => simp [textOfParts, hhigh, hlow, hscalar]
  | .char c :: rest => simp [textOfParts, hhigh, hlow, hscalar]
  | .unit m :: rest => simp [textOfParts, hhigh, hlow, hscalar]

theorem textOfParts_partOf (loneSurrogates : Bool) (t : Text) :
    textOfParts loneSurrogates (t.map partOf) = some t := by
  induction t with
  | nil => rfl
  | cons c t ih =>
      rw [List.map_cons, partOf]
      split
      · rename_i h
        rw [textOfParts_control loneSurrogates h.1, ih, Char.ofNat_toNat]
        rfl
      · rw [textOfParts_char, ih]
        rfl

theorem readString_escaped (loneSurrogates : Bool) (t rest : Text) :
    readString loneSurrogates (t.flatMap escapeChar ++ '\x22' :: rest) = some (t, rest) := by
  rw [readString, readParts_escaped]
  show (textOfParts loneSurrogates (t.map partOf)).bind _ = _
  rw [textOfParts_partOf]
  rfl

/-! ### Numbers -/

/-- A number does not go on in the text. -/
def Ends (t : Text) : Prop :=
  ∀ c ∈ t.head?, c.isDigit = false ∧ c ≠ '.' ∧ c ≠ 'e' ∧ c ≠ 'E'

theorem span_digits {digits rest : Text} (hdigits : ∀ c ∈ digits, c.isDigit = true)
    (hrest : Ends rest) : (digits ++ rest).span Char.isDigit = (digits, rest) := by
  obtain ⟨htaken, hleft⟩ := takeWhile_append hdigits fun c hc => (hrest c hc).1
  rw [List.span_eq_takeWhile_dropWhile, htaken, hleft]

theorem isDigit_of_mem {n : ℕ} {c : Char} (h : c ∈ Nat.toDigits 10 n) : c.isDigit = true :=
  Nat.isDigit_of_mem_toDigits (by decide) (by decide) h

theorem toDigits_eq_cons (n : ℕ) : ∃ c t, Nat.toDigits 10 n = c :: t ∧ c.isDigit = true := by
  obtain ⟨c, t, h⟩ := List.exists_cons_of_ne_nil (Nat.toDigits_ne_nil (n := n) (b := 10))
  exact ⟨c, t, h, isDigit_of_mem (h ▸ List.mem_cons_self)⟩

theorem ne_of_isDigit {x c : Char} (hc : c.isDigit = true) (hx : x.isDigit = false) : x ≠ c := by
  rintro rfl
  rw [hc] at hx
  exact absurd hx (by decide)

theorem isSpace_of_isDigit {c : Char} (hc : c.isDigit = true) : isSpace c = false := by
  have hother {x : Char} (hx : x.isDigit = false) : (c == x) = false :=
    beq_eq_false_iff_ne.mpr (ne_of_isDigit hc hx).symm
  rw [isSpace, hother rfl, hother rfl, hother rfl, hother rfl]
  rfl

theorem lt_of_isDigit {c : Char} (hc : c.isDigit = true) : c.toNat < 0x80 :=
  Nat.lt_of_le_of_lt (Char.isDigit_iff_toNat.mp hc).2 (by decide)

theorem head?_toDigits_append (n : ℕ) (t : Text) :
    (Nat.toDigits 10 n ++ t).head? = (Nat.toDigits 10 n).head? :=
  List.head?_append_of_ne_nil _ Nat.toDigits_ne_nil

/-- Only the digits of zero start with a zero. -/
theorem eq_zero_of_toDigits {n : ℕ} (h : (Nat.toDigits 10 n).head? = some '0') : n = 0 := by
  induction n using Nat.strongRecOn with
  | ind n ih =>
      by_cases hsmall : n < 10
      · rw [Nat.toDigits_of_lt_base hsmall, List.head?_cons, Option.some_inj] at h
        exact Nat.digitChar_eq_zero.mp h
      · rw [Nat.toDigits_of_base_le (by decide) (by omega),
          head?_toDigits_append] at h
        have := ih (n / 10) (by omega) h
        omega

theorem readWhole_toDigits (n : ℕ) {rest : Text} (hrest : Ends rest) :
    readWhole (Nat.toDigits 10 n ++ rest) = (Nat.toDigits 10 n, rest) := by
  unfold readWhole
  split
  · rename_i behind h
    have hzero : n = 0 := by
      have hhead := congrArg List.head? h
      rw [head?_toDigits_append] at hhead
      exact eq_zero_of_toDigits hhead
    rw [hzero, Nat.toDigits_zero] at h ⊢
    have hbehind : rest = behind := (List.cons.inj h).2
    rw [hbehind]
  · exact span_digits (fun c => isDigit_of_mem) hrest

theorem readFraction_of_ends {t : Text} (h : Ends t) : readFraction t = ([], t) := by
  unfold readFraction
  split
  · exact absurd rfl (h '.' rfl).2.1
  · rfl

theorem readPower_of_ends {t : Text} (h : Ends t) : readPower t = (none, t) := by
  cases t with
  | nil => rfl
  | cons c rest =>
      obtain ⟨_, _, hlower, hupper⟩ := h c rfl
      rw [readPower, if_neg (by simp [hlower, hupper])]

theorem readNumber_toDigits (n : ℕ) {rest : Text} (hrest : Ends rest) :
    readNumber (Nat.toDigits 10 n ++ rest) = some (⟨false, Nat.toDigits 10 n, [], none⟩, rest) := by
  have hsign : ∀ t, Nat.toDigits 10 n ++ rest ≠ '-' :: t := by
    intro t h
    have hhead := congrArg List.head? h
    rw [head?_toDigits_append] at hhead
    exact absurd (isDigit_of_mem (List.mem_of_head? hhead)) (by decide)
  have hfilled : (Nat.toDigits 10 n).isEmpty = false :=
    List.isEmpty_eq_false_iff.mpr Nat.toDigits_ne_nil
  unfold readNumber
  split
  rename_i negative unsigned hsplit
  split at hsplit
  · rename_i t h
    exact absurd h (hsign t)
  · obtain ⟨rfl, rfl⟩ := Prod.mk.inj hsplit
    simp only [readWhole_toDigits n hrest, hfilled, readFraction_of_ends hrest,
      readPower_of_ends hrest, Bool.false_eq_true, if_false]

theorem readNumber_minus (n : ℕ) {rest : Text} (hrest : Ends rest) :
    readNumber ('-' :: (Nat.toDigits 10 n ++ rest)) =
      some (⟨true, Nat.toDigits 10 n, [], none⟩, rest) := by
  have hfilled : (Nat.toDigits 10 n).isEmpty = false :=
    List.isEmpty_eq_false_iff.mpr Nat.toDigits_ne_nil
  simp only [readNumber, readWhole_toDigits n hrest, hfilled, readFraction_of_ends hrest,
    readPower_of_ends hrest, Bool.false_eq_true, if_false]

theorem readNumber_integerText (n : ℤ) {rest : Text} (hrest : Ends rest) :
    readNumber (integerText n ++ rest) =
      some (⟨decide (n < 0), Nat.toDigits 10 n.natAbs, [], none⟩, rest) := by
  rw [integerText]
  split
  · rename_i h
    rw [decide_eq_true h]
    exact readNumber_minus n.natAbs hrest
  · rename_i h
    rw [decide_eq_false h]
    exact readNumber_toDigits n.natAbs hrest

theorem zero_notMem_integerText (n : ℤ) : '\x00' ∉ integerText n := by
  have hdigits : '\x00' ∉ Nat.toDigits 10 n.natAbs := by
    intro h
    exact absurd (isDigit_of_mem h) (by decide)
  rw [integerText]
  split
  · rw [List.mem_cons, not_or]
    exact ⟨by decide, hdigits⟩
  · exact hdigits

theorem integerText_eq_cons (n : ℤ) : ∃ c t, c.isDigit = true ∧
    (integerText n = c :: t ∨ integerText n = '-' :: c :: t) := by
  obtain ⟨c, t, hdigits, hc⟩ := toDigits_eq_cons n.natAbs
  rw [integerText, hdigits]
  split
  · exact ⟨c, t, hc, .inr rfl⟩
  · exact ⟨c, t, hc, .inl rfl⟩

end TracedText.Json
