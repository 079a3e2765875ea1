import Mathlib.Data.List.Nodup
import TracedText.Proofs.Encodings
import TracedText.Proofs.JsonTokens
import TracedText.Proofs.Outcomes

/-! # Documents read back

A value without doubles whose objects give each key once is read from what is written for it
(`reads_print`), and the document of a value is read as the value with its keys in order
(`read_write`), whichever dialects write and read.  `Fits` says what the reading dialect has to be
able to follow; what the strict one follows, both follow and both write (`write_of_fits`). -/

namespace TracedText.Json

/-- The dialect follows the value, with so many lists and objects inside one another at most. -/
inductive Fits (dialect : Dialect) : ℕ → Json → Prop where
  | null {room : ℕ} : Fits dialect room .null
  | bool {room : ℕ} (value : Bool) : Fits dialect room (.bool value)
  | int {room : ℕ} (n : ℤ) (hwidth : dialect.wideIntegers || fits64 n)
      (hdigits : ∀ most ∈ dialect.maxDigits, (Nat.toDigits 10 n.natAbs).length ≤ most) :
      Fits dialect room (.int n)
  | str {room : ℕ} (s : String) : Fits dialect room (.str s)
  | arr {room : ℕ} (items : List Json) (hitems : ∀ item ∈ items, Fits dialect room item) :
      Fits dialect (room + 1) (.arr items)
  | obj {room : ℕ} (fields : List (String × Json)) (hkeys : (fields.map Prod.fst).Nodup)
      (hfields : ∀ field ∈ fields, Fits dialect room field.2) :
      Fits dialect (room + 1) (.obj fields)

section
variable {dialect : Dialect}

/-! ### Words and numbers -/

/-- No word starts with a digit, nor with a sign and a digit. -/
theorem words_isPrefixOf {word : Text × Json} (hword : word ∈ words dialect) {c : Char}
    (hc : c.isDigit = true) (t : Text) :
    word.1.isPrefixOf (c :: t) = false ∧ word.1.isPrefixOf ('-' :: c :: t) = false := by
  have hother {x : Char} (hx : x.isDigit = false) : (x == c) = false :=
    beq_eq_false_iff_ne.mpr (ne_of_isDigit hc hx)
  have hn := hother (x := 'n') rfl
  have ht := hother (x := 't') rfl
  have hf := hother (x := 'f') rfl
  have hN := hother (x := 'N') rfl
  have hI := hother (x := 'I') rfl
  have hminus := hother (x := '-') rfl
  unfold words at hword
  split at hword
  · simp at hword
    rcases hword with rfl | rfl | rfl | rfl | rfl | rfl <;> simp_all [List.isPrefixOf]
  · simp at hword
    rcases hword with rfl | rfl | rfl <;> simp_all [List.isPrefixOf]

theorem readPlain_of_words {t : Text} (h : ∀ word ∈ words dialect, word.1.isPrefixOf t = false)
    {token : NumberToken} {rest : Text} (hread : readNumber t = some (token, rest)) :
    readPlain dialect t = (ofNumber dialect token).map (·, rest) := by
  unfold readPlain
  split
  · rename_i found hfound
    obtain ⟨word, hword, hdropped⟩ := List.exists_of_findSome?_eq_some hfound
    simp [dropWord?, h word hword] at hdropped
  · simp only [hread]
    cases ofNumber dialect token <;> rfl

theorem ofNumber_integerText {n : ℤ} (hwidth : dialect.wideIntegers || fits64 n)
    (hdigits : ∀ most ∈ dialect.maxDigits, (Nat.toDigits 10 n.natAbs).length ≤ most) :
    ofNumber dialect ⟨decide (n < 0), Nat.toDigits 10 n.natAbs, [], none⟩ = .ok (.int n) := by
  have hinteger : NumberToken.integer ⟨decide (n < 0), Nat.toDigits 10 n.natAbs, [], none⟩ = n := by
    rw [NumberToken.integer, Nat.ofDigitChars_ten_toDigits]
    by_cases h : n < 0
    · rw [if_pos (by simpa using h)]
      omega
    · rw [if_neg (by simpa using h)]
      omega
  have hlength : dialect.maxDigits.any (· < (Nat.toDigits 10 n.natAbs).length) = false := by
    cases hmost : dialect.maxDigits with
    | none => rfl
    | some most => exact decide_eq_false (Nat.not_lt.mpr (hdigits most hmost))
  have hwhole : NumberToken.isWhole ⟨decide (n < 0), Nat.toDigits 10 n.natAbs, [], none⟩ = true :=
    rfl
  rw [ofNumber, hinteger, hwhole, hwidth, if_pos (by decide), hlength]
  rfl

theorem readPlain_integerText {n : ℤ} (hwidth : dialect.wideIntegers || fits64 n)
    (hdigits : ∀ most ∈ dialect.maxDigits, (Nat.toDigits 10 n.natAbs).length ≤ most)
    {rest : Text} (hrest : Ends rest) :
    readPlain dialect (integerText n ++ rest) = .ok (.int n, rest) := by
  have hwords : ∀ word ∈ words dialect, word.1.isPrefixOf (integerText n ++ rest) = false := by
    intro word hword
    obtain ⟨c, t, hc, hinteger | hinteger⟩ := integerText_eq_cons n
    · rw [hinteger]
      exact (words_isPrefixOf hword hc (t ++ rest)).1
    · rw [hinteger]
      exact (words_isPrefixOf hword hc (t ++ rest)).2
  rw [readPlain_of_words hwords (readNumber_integerText n hrest),
    ofNumber_integerText hwidth hdigits]
  rfl

/-! ### Steps of the reader -/

theorem readValue_blanks {blanks : Text} (h : ∀ c ∈ blanks, isSpace c = true) (room fuel : ℕ)
    (t : Text) : readValue dialect room fuel (blanks ++ t) = readValue dialect room fuel t := by
  cases fuel with
  | zero => rw [readValue, readValue]
  | succ fuel => rw [readValue, readValue, skipSpaces_append h]

theorem readValue_quote (room fuel : ℕ) (s rest : Text) :
    readValue dialect room (fuel + 1) (quote s ++ rest) = .ok (.str (String.ofList s), rest) := by
  have hquote : quote s ++ rest = '\x22' :: (s.flatMap escapeChar ++ '\x22' :: rest) := by
    rw [quote, List.cons_append, List.append_assoc, List.singleton_append]
  have hstart : skipSpaces ('\x22' :: (s.flatMap escapeChar ++ '\x22' :: rest)) =
      '\x22' :: (s.flatMap escapeChar ++ '\x22' :: rest) := rfl
  rw [hquote, readValue, hstart]
  simp only [readString_escaped]

theorem readValue_list (room fuel : ℕ) {body : Text} (h : (skipSpaces body).head? ≠ some ']') :
    readValue dialect (room + 1) (fuel + 1) ('[' :: body) =
      (readItems dialect room fuel body).map fun (items, rest) => (.arr items, rest) := by
  have hstart : skipSpaces ('[' :: body) = '[' :: body := rfl
  rw [readValue, hstart]
  simp only
  split
  · exact absurd ‹room + 1 = 0› (Nat.succ_ne_zero room)
  · rename_i hclose _
    exact absurd (congrArg List.head? hclose) h
  · rename_i inner hinner _
    obtain rfl : room = inner := Nat.succ.inj hinner
    cases readItems dialect room fuel body <;> rfl

theorem readValue_object (room fuel : ℕ) {body : Text} (h : (skipSpaces body).head? ≠ some '\x7d') :
    readValue dialect (room + 1) (fuel + 1) ('\x7b' :: body) =
      (readFields dialect room fuel [] body).map fun (fields, rest) => (.obj fields, rest) := by
  have hstart : skipSpaces ('\x7b' :: body) = '\x7b' :: body := rfl
  rw [readValue, hstart]
  simp only
  split
  · exact absurd ‹room + 1 = 0› (Nat.succ_ne_zero room)
  · rename_i hclose _
    exact absurd (congrArg List.head? hclose) h
  · rename_i inner hinner _
    obtain rfl : room = inner := Nat.succ.inj hinner
    cases readFields dialect room fuel [] body <;> rfl

theorem readValue_plain (room fuel : ℕ) {c : Char} {rest : Text} (hspace : isSpace c = false)
    (hc : c ∉ ['\x22', '[', '\x7b']) :
    readValue dialect room (fuel + 1) (c :: rest) = readPlain dialect (c :: rest) := by
  rw [readValue, skipSpaces_cons hspace]
  split
  all_goals simp_all

/-! ### Values -/

/-- The text is read as the value, whatever stands behind it that a number does not go on in. -/
def Reads (dialect : Dialect) (room : ℕ) (value : Json) (t : Text) : Prop :=
  ∀ (fuel : ℕ) (rest : Text), 2 * t.length ≤ fuel → Ends rest →
    readValue dialect room fuel (t ++ rest) = .ok (value, rest)

theorem isSpace_of_mem_lineBreak {layout : Layout} {depth : ℕ} {c : Char}
    (h : c ∈ layout.lineBreak depth) : isSpace c = true := by
  cases layout with
  | none => exact absurd h List.not_mem_nil
  | some width =>
      rcases List.mem_cons.mp h with rfl | hblank
      · rfl
      · rw [List.eq_of_mem_replicate hblank]
        rfl

theorem colon_eq (layout : Layout) :
    ∃ blanks, layout.colon = ':' :: blanks ∧ ∀ c ∈ blanks, isSpace c = true := by
  cases layout with
  | none => exact ⟨[], rfl, nofun⟩
  | some width =>
      refine ⟨[' '], rfl, ?_⟩
      intro c hc
      rw [List.mem_singleton.mp hc]
      rfl

theorem ends_cons {c : Char} (h : c ∈ [',', ']', '\x7d', ' ', '\t', '\n', '\r']) (t : Text) :
    Ends (c :: t) := by
  intro x hx
  rw [List.head?_cons, Option.mem_some_iff] at hx
  simp only [List.mem_cons, List.not_mem_nil, or_false] at h
  rcases h with rfl | rfl | rfl | rfl | rfl | rfl | rfl <;> exact hx ▸ (by decide)

theorem ends_blanks_append {blanks t : Text} (h : ∀ c ∈ blanks, isSpace c = true) (ht : Ends t) :
    Ends (blanks ++ t) := by
  cases blanks with
  | nil => exact ht
  | cons c blanks =>
      have hc := h c List.mem_cons_self
      refine ends_cons ?_ (blanks ++ t)
      simp only [isSpace, Bool.or_eq_true, beq_iff_eq] at hc
      rcases hc with ((rfl | rfl) | rfl) | rfl <;> decide

section
variable (floats : FloatStyle) (layout : Layout)

/-- What is written for a value starts with an ASCII character that is no blank and closes no
list. -/
theorem print_eq_cons {room : ℕ} {value : Json} (h : Fits dialect room value) (depth : ℕ) :
    ∃ c t, print floats layout depth value = c :: t ∧ c.toNat < 0x80 ∧ isSpace c = false ∧
      c ≠ ']' := by
  cases h with
  | null => exact ⟨_, _, rfl, by decide, rfl, by decide⟩
  | bool value => cases value <;> exact ⟨_, _, rfl, by decide, rfl, by decide⟩
  | int n _ _ =>
      obtain ⟨c, t, hc, hinteger | hinteger⟩ := integerText_eq_cons n
      · exact ⟨c, t, hinteger, lt_of_isDigit hc, isSpace_of_isDigit hc, (ne_of_isDigit hc rfl).symm⟩
      · exact ⟨'-', _, hinteger, by decide, rfl, by decide⟩
  | str s => exact ⟨_, _, rfl, by decide, rfl, by decide⟩
  | arr items _ =>
      rw [print]
      split <;> exact ⟨_, _, rfl, by decide, rfl, by decide⟩
  | obj fields _ _ =>
      rw [print]
      split <;> exact ⟨_, _, rfl, by decide, rfl, by decide⟩

theorem readItems_print {room depth : ℕ} {items : List Json} (hne : items ≠ [])
    (h : ∀ item ∈ items, Reads dialect room item (print floats layout depth item)) {closing : Text}
    (hblanks : ∀ c ∈ closing, isSpace c = true) (fuel : ℕ) (rest : Text)
    (hfuel : 2 * (printItems floats layout depth items).length < fuel) :
    readItems dialect room fuel (printItems floats layout depth items ++ (closing ++ ']' :: rest)) =
      .ok (items, rest) := by
  induction items generalizing fuel with
  | nil => exact absurd rfl hne
  | cons item items ih =>
      obtain ⟨fuel, rfl⟩ : ∃ n, fuel = n + 1 := ⟨fuel - 1, by omega⟩
      have hread := h item List.mem_cons_self
      have hbreak : ∀ c ∈ layout.lineBreak depth, isSpace c = true :=
        fun c => isSpace_of_mem_lineBreak
      rw [printItems, List.length_append, List.length_append] at hfuel
      rw [printItems, List.append_assoc, List.append_assoc, readItems, readValue_blanks hbreak]
      cases items with
      | nil =>
          have hlast := hread fuel (closing ++ ']' :: rest) (by omega)
            (ends_blanks_append hblanks (ends_cons (by decide) rest))
          have hclose : skipSpaces (closing ++ ']' :: rest) = ']' :: rest :=
            skipSpaces_append hblanks _
          simp only [List.isEmpty_nil, if_true, List.nil_append, hlast, bind, Except.bind, hclose]
          rfl
      | cons other others =>
          rw [if_neg (by simp), List.length_cons] at hfuel
          rw [if_neg (by simp), List.cons_append]
          have hfirst := hread fuel
            (',' :: (printItems floats layout depth (other :: others) ++ (closing ++ ']' :: rest)))
            (by omega) (ends_cons (by decide) _)
          have hothers := ih (List.cons_ne_nil _ _)
            (fun item hitem => h item (List.mem_cons_of_mem _ hitem)) fuel (by omega)
          have hcomma (t : Text) : skipSpaces (',' :: t) = ',' :: t := rfl
          simp only [hfirst, bind, Except.bind, hcomma, hothers]
          rfl

theorem readKey_quote {blanks : Text} (hblanks : ∀ c ∈ blanks, isSpace c = true) (key : String)
    (t : Text) :
    readKey dialect (blanks ++ (quote key.toList ++ ':' :: t)) = .ok (key, t) := by
  have hquote : quote key.toList ++ ':' :: t =
      '\x22' :: (key.toList.flatMap escapeChar ++ '\x22' :: ':' :: t) := by
    rw [quote, List.cons_append, List.append_assoc, List.singleton_append]
  have hstart (s : Text) : skipSpaces ('\x22' :: s) = '\x22' :: s := rfl
  have hcolon : skipSpaces (':' :: t) = ':' :: t := rfl
  rw [readKey, skipSpaces_append hblanks, hquote, hstart]
  simp only [readString_escaped, hcolon, String.ofList_toList]

theorem setField_of_notMem {key : String} {value : Json} {fields : List (String × Json)}
    (h : key ∉ fields.map Prod.fst) : setField key value fields = fields ++ [(key, value)] := by
  induction fields with
  | nil => rfl
  | cons field fields ih =>
      obtain ⟨hne, hrest⟩ := List.ne_and_not_mem_of_not_mem_cons h
      rw [setField, if_neg (by simpa using hne.symm), ih hrest, List.cons_append]

theorem readFields_print {room depth : ℕ} {fields : List (String × Json)} (hne : fields ≠ [])
    (h : ∀ field ∈ fields, Reads dialect room field.2 (print floats layout depth field.2))
    {closing : Text} (hblanks : ∀ c ∈ closing, isSpace c = true) (fuel : ℕ)
    (read : List (String × Json)) (hkeys : ((read ++ fields).map Prod.fst).Nodup) (rest : Text)
    (hfuel : 2 * (printFields floats layout depth fields).length < fuel) :
    readFields dialect room fuel read
        (printFields floats layout depth fields ++ (closing ++ '\x7d' :: rest)) =
      .ok (read ++ fields, rest) := by
  induction fields generalizing fuel read with
  | nil => exact absurd rfl hne
  | cons field fields ih =>
      obtain ⟨key, value⟩ := field
      obtain ⟨fuel, rfl⟩ : ∃ n, fuel = n + 1 := ⟨fuel - 1, by omega⟩
      have hread : Reads dialect room value (print floats layout depth value) :=
        h (key, value) List.mem_cons_self
      have hbreak : ∀ c ∈ layout.lineBreak depth, isSpace c = true :=
        fun c => isSpace_of_mem_lineBreak
      have hset : setField key value read = read ++ [(key, value)] := by
        apply setField_of_notMem
        rw [List.map_append, List.nodup_append] at hkeys
        intro hmem
        exact hkeys.2.2 key hmem key List.mem_cons_self rfl
      obtain ⟨blanks, hcolon, hcolonBlanks⟩ := colon_eq layout
      rw [printFields, hcolon] at hfuel ⊢
      simp only [List.length_append, List.length_cons] at hfuel
      rw [readFields]
      simp only [List.append_assoc, List.cons_append, readKey_quote hbreak, bind, Except.bind,
        readValue_blanks hcolonBlanks]
      cases fields with
      | nil =>
          have hlast := hread fuel (closing ++ '\x7d' :: rest) (by omega)
            (ends_blanks_append hblanks (ends_cons (by decide) rest))
          have hclose : skipSpaces (closing ++ '\x7d' :: rest) = '\x7d' :: rest :=
            skipSpaces_append hblanks _
          simp only [List.isEmpty_nil, if_true, List.nil_append, hlast, hclose, hset]
          rfl
      | cons other others =>
          rw [if_neg (by simp), List.length_cons] at hfuel
          rw [if_neg (by simp), List.cons_append]
          have hfirst := hread fuel (',' ::
            (printFields floats layout depth (other :: others) ++ (closing ++ '\x7d' :: rest)))
            (by omega) (ends_cons (by decide) _)
          have hothers := ih (List.cons_ne_nil _ _)
            (fun field hfield => h field (List.mem_cons_of_mem _ hfield)) fuel
            (read ++ [(key, value)]) (by simpa using hkeys) (by omega)
          have hcomma (t : Text) : skipSpaces (',' :: t) = ',' :: t := rfl
          simp only [hfirst, hcomma, hset, hothers, List.append_assoc, List.singleton_append]

theorem reads_of_readPlain {room : ℕ} {value : Json} {c : Char} {t : Text}
    (hspace : isSpace c = false) (hc : c ∉ ['\x22', '[', '\x7b'])
    (h : ∀ rest, Ends rest → readPlain dialect (c :: t ++ rest) = .ok (value, rest)) :
    Reads dialect room value (c :: t) := by
  intro fuel rest hfuel hrest
  obtain ⟨fuel, rfl⟩ : ∃ n, fuel = n + 1 := ⟨fuel - 1, by rw [List.length_cons] at hfuel; omega⟩
  rw [← h rest hrest, List.cons_append]
  exact readValue_plain room fuel hspace hc

theorem reads_integerText {room : ℕ} {n : ℤ} (hwidth : dialect.wideIntegers || fits64 n)
    (hdigits : ∀ most ∈ dialect.maxDigits, (Nat.toDigits 10 n.natAbs).length ≤ most) :
    Reads dialect room (.int n) (integerText n) := by
  have hread := fun rest (hrest : Ends rest) => readPlain_integerText hwidth hdigits hrest
  obtain ⟨c, t, hc, hinteger | hinteger⟩ := integerText_eq_cons n
  · rw [hinteger] at hread ⊢
    refine reads_of_readPlain (isSpace_of_isDigit hc) ?_ hread
    simp only [List.mem_cons, List.not_mem_nil, or_false, not_or]
    exact ⟨(ne_of_isDigit hc rfl).symm, (ne_of_isDigit hc rfl).symm, (ne_of_isDigit hc rfl).symm⟩
  · rw [hinteger] at hread ⊢
    exact reads_of_readPlain rfl (by decide) hread

theorem reads_quote (room : ℕ) (s : String) : Reads dialect room (.str s) (quote s.toList) := by
  intro fuel rest hfuel _
  obtain ⟨fuel, rfl⟩ : ∃ n, fuel = n + 1 := ⟨fuel - 1, by simp [quote] at hfuel; omega⟩
  rw [readValue_quote, String.ofList_toList]

theorem reads_list {room depth : ℕ} {items : List Json}
    (hitems : ∀ item ∈ items, Fits dialect room item)
    (h : ∀ item ∈ items, Reads dialect room item (print floats layout (depth + 1) item)) :
    Reads dialect (room + 1) (.arr items) (print floats layout depth (.arr items)) := by
  intro fuel rest hfuel _
  rw [print] at hfuel ⊢
  cases items with
  | nil =>
      obtain ⟨fuel, rfl⟩ : ∃ n, fuel = n + 1 := ⟨fuel - 1, by simp at hfuel; omega⟩
      rw [readValue]
      rfl
  | cons item items =>
      rw [if_neg (by simp)] at hfuel ⊢
      simp only [List.length_cons, List.length_append, List.length_nil] at hfuel
      obtain ⟨fuel, rfl⟩ : ∃ n, fuel = n + 1 := ⟨fuel - 1, by omega⟩
      have hbreak : ∀ n, ∀ c ∈ layout.lineBreak n, isSpace c = true :=
        fun _ _ => isSpace_of_mem_lineBreak
      have hread := readItems_print floats layout (List.cons_ne_nil item items) h
        (hbreak depth) fuel rest (by omega)
      have hopen : (skipSpaces (printItems floats layout (depth + 1) (item :: items) ++
          (layout.lineBreak depth ++ ']' :: rest))).head? ≠ some ']' := by
        obtain ⟨c, t, hitem, _, hspace, hclose⟩ :=
          print_eq_cons floats layout (hitems item List.mem_cons_self) (depth + 1)
        rw [printItems, hitem, List.append_assoc, skipSpaces_append (hbreak _), List.cons_append,
          List.cons_append, skipSpaces_cons hspace, List.head?_cons, ne_eq, Option.some_inj]
        exact hclose
      rw [List.cons_append, List.append_assoc, List.append_assoc, List.singleton_append,
        readValue_list room fuel hopen, hread]
      rfl

theorem reads_object {room depth : ℕ} {fields : List (String × Json)}
    (hkeys : (fields.map Prod.fst).Nodup)
    (h : ∀ field ∈ fields, Reads dialect room field.2 (print floats layout (depth + 1) field.2)) :
    Reads dialect (room + 1) (.obj fields) (print floats layout depth (.obj fields)) := by
  intro fuel rest hfuel _
  rw [print] at hfuel ⊢
  cases fields with
  | nil =>
      obtain ⟨fuel, rfl⟩ : ∃ n, fuel = n + 1 := ⟨fuel - 1, by simp at hfuel; omega⟩
      rw [readValue]
      rfl
  | cons field fields =>
      rw [if_neg (by simp)] at hfuel ⊢
      simp only [List.length_cons, List.length_append, List.length_nil] at hfuel
      obtain ⟨fuel, rfl⟩ : ∃ n, fuel = n + 1 := ⟨fuel - 1, by omega⟩
      have hbreak : ∀ n, ∀ c ∈ layout.lineBreak n, isSpace c = true :=
        fun _ _ => isSpace_of_mem_lineBreak
      have hread := readFields_print floats layout (List.cons_ne_nil field fields) h
        (hbreak depth) fuel [] hkeys rest (by omega)
      have hopen : (skipSpaces (printFields floats layout (depth + 1) (field :: fields) ++
          (layout.lineBreak depth ++ '\x7d' :: rest))).head? ≠ some '\x7d' := by
        rw [printFields, List.append_assoc, skipSpaces_append (hbreak _)]
        exact nofun
      rw [List.cons_append, List.append_assoc, List.append_assoc, List.singleton_append,
        readValue_object room fuel hopen, hread]
      rfl

/-- **What is written for a value is read as the value.** -/
theorem reads_print {room : ℕ} {value : Json} (h : Fits dialect room value) (depth : ℕ) :
    Reads dialect room value (print floats layout depth value) := by
  induction h generalizing depth with
  | null => exact reads_of_readPlain rfl (by decide) fun _ _ => rfl
  | bool value =>
      cases value with
      | false => exact reads_of_readPlain rfl (by decide) fun _ _ => rfl
      | true => exact reads_of_readPlain rfl (by decide) fun _ _ => rfl
  | int n hwidth hdigits => exact reads_integerText hwidth hdigits
  | str s => exact reads_quote _ s
  | arr items hitems ih => exact reads_list floats layout hitems fun item hitem => ih item hitem _
  | obj fields hkeys hfields ih =>
      exact reads_object floats layout hkeys fun field hfield => ih field hfield _

/-! ### Bytes of documents -/

theorem zero_notMem_quote (s : Text) : '\x00' ∉ quote s := by
  rw [quote, List.mem_cons, List.mem_append, List.mem_flatMap]
  rintro (h | ⟨c, _, h⟩ | h)
  · exact absurd h (by decide)
  · exact zero_notMem_escapeChar c h
  · exact absurd h (by decide)

theorem zero_notMem_lineBreak (depth : ℕ) : '\x00' ∉ layout.lineBreak depth := by
  intro h
  exact absurd (isSpace_of_mem_lineBreak h) (by decide)

theorem zero_notMem_printItems {depth : ℕ} {items : List Json}
    (h : ∀ item ∈ items, '\x00' ∉ print floats layout depth item) :
    '\x00' ∉ printItems floats layout depth items := by
  induction items with
  | nil => exact List.not_mem_nil
  | cons item items ih =>
      have hitem := h item List.mem_cons_self
      have hitems := ih fun item hitem => h item (List.mem_cons_of_mem _ hitem)
      have hbreak := zero_notMem_lineBreak layout depth
      rw [printItems]
      split
      · simp [hbreak, hitem]
      · simp [hbreak, hitem, hitems]

theorem zero_notMem_printFields {depth : ℕ} {fields : List (String × Json)}
    (h : ∀ field ∈ fields, '\x00' ∉ print floats layout depth field.2) :
    '\x00' ∉ printFields floats layout depth fields := by
  induction fields with
  | nil => exact List.not_mem_nil
  | cons field fields ih =>
      have hvalue := h field List.mem_cons_self
      have hfields := ih fun field hfield => h field (List.mem_cons_of_mem _ hfield)
      have hbreak := zero_notMem_lineBreak layout depth
      have hkey := zero_notMem_quote field.1.toList
      have hcolon : '\x00' ∉ layout.colon := by
        rw [Layout.colon]
        split <;> decide
      rw [printFields]
      split
      · simp [hbreak, hkey, hcolon, hvalue]
      · simp [hbreak, hkey, hcolon, hvalue, hfields]

theorem zero_notMem_print {room : ℕ} {value : Json} (h : Fits dialect room value) (depth : ℕ) :
    '\x00' ∉ print floats layout depth value := by
  induction h generalizing depth with
  | null =>
      rw [print]
      decide
  | bool value =>
      rw [print]
      split <;> decide
  | int n _ _ => exact zero_notMem_integerText n
  | str s => exact zero_notMem_quote s.toList
  | arr items _ ih =>
      have hitems := zero_notMem_printItems floats layout fun item hitem =>
        ih item hitem (depth + 1)
      have hbreak := zero_notMem_lineBreak layout depth
      rw [print]
      split
      · decide
      · simp [hbreak, hitems]
  | obj fields _ _ ih =>
      have hfields := zero_notMem_printFields floats layout fun field hfield =>
        ih field hfield (depth + 1)
      have hbreak := zero_notMem_lineBreak layout depth
      rw [print]
      split
      · decide
      · simp [hbreak, hfields]

end

/-! ### Documents -/

theorem sortKeysItems_eq_map (items : List Json) : sortKeysItems items = items.map sortKeys := by
  induction items with
  | nil => rfl
  | cons item items ih => rw [sortKeysItems, ih, List.map_cons]

theorem sortKeysFields_eq_map (fields : List (String × Json)) :
    sortKeysFields fields = fields.map fun field => (field.1, sortKeys field.2) := by
  induction fields with
  | nil => rfl
  | cons field fields ih => rw [sortKeysFields, ih, List.map_cons]

theorem sortFields_perm (fields : List (String × Json)) : (sortFields fields).Perm fields :=
  List.mergeSort_perm fields _

theorem lookup_eq_some_iff_mem {fields : List (String × Json)}
    (h : (fields.map Prod.fst).Nodup) {key : String} {value : Json} :
    fields.lookup key = some value ↔ (key, value) ∈ fields := by
  induction fields with
  | nil => exact ⟨nofun, nofun⟩
  | cons field fields ih =>
      obtain ⟨other, found⟩ := field
      obtain ⟨hother, hrest⟩ := List.nodup_cons.mp h
      rw [List.lookup_cons, List.mem_cons]
      by_cases hkey : key = other
      · subst hkey
        have hnot : (key, value) ∉ fields := fun hmem =>
          hother (List.mem_map.mpr ⟨(key, value), hmem, rfl⟩)
        simp [hnot, eq_comm]
      · simp [hkey, beq_eq_false_iff_ne.mpr hkey, ih hrest]

theorem lookup_sortFields {fields : List (String × Json)} (h : (fields.map Prod.fst).Nodup)
    (key : String) : (sortFields fields).lookup key = fields.lookup key := by
  have hperm := sortFields_perm fields
  have hsorted : ((sortFields fields).map Prod.fst).Nodup := (hperm.map Prod.fst).nodup_iff.mpr h
  refine Option.ext fun value => ?_
  rw [lookup_eq_some_iff_mem hsorted, lookup_eq_some_iff_mem h, hperm.mem_iff]

theorem Fits.sortKeys {room : ℕ} {value : Json} (h : Fits dialect room value) :
    Fits dialect room value.sortKeys := by
  induction h with
  | null => exact .null
  | bool value => exact .bool value
  | int n hwidth hdigits => exact .int n hwidth hdigits
  | str s => exact .str s
  | arr items _ ih =>
      rw [Json.sortKeys, sortKeysItems_eq_map]
      refine .arr _ ?_
      intro item hitem
      obtain ⟨given, hgiven, rfl⟩ := List.mem_map.mp hitem
      exact ih given hgiven
  | obj fields hkeys _ ih =>
      rw [Json.sortKeys, sortKeysFields_eq_map]
      have hperm := sortFields_perm (fields.map fun field => (field.1, Json.sortKeys field.2))
      refine .obj _ ?_ ?_
      · rw [(hperm.map Prod.fst).nodup_iff, List.map_map]
        exact hkeys
      · intro field hfield
        obtain ⟨given, hgiven, rfl⟩ := List.mem_map.mp (hperm.mem_iff.mp hfield)
        exact ih given hgiven

theorem write_eq_ok {writer : Dialect} {pretty : Bool} {value : Json} {t : Text}
    (h : write writer pretty value = .ok t) :
    t = print writer.floats (.ofPretty pretty) 0 value.sortKeys ++
      if pretty then ['\n'] else [] := by
  rw [write] at h
  split at h
  · exact nomatch h
  · split at h
    · exact nomatch h
    · exact (Except.ok.inj h).symm

theorem readAll_append {value : Json} {t blanks : Text}
    (hread : Reads dialect dialect.readDepth value t) (hblanks : ∀ c ∈ blanks, isSpace c = true) :
    readAll dialect (t ++ blanks) = .ok value := by
  have hends : Ends blanks := by
    rw [← List.append_nil blanks]
    exact ends_blanks_append hblanks nofun
  have hvalue := hread (2 * (t ++ blanks).length + 2) blanks
    (by rw [List.length_append]; omega) hends
  have hnone : skipSpaces blanks = [] := by
    rw [← List.append_nil blanks, skipSpaces_append hblanks]
    rfl
  rw [readAll, hvalue]
  change (if (skipSpaces blanks).isEmpty then Except.ok value else .error ReadError.malformed) = _
  rw [hnone]
  rfl

/-- **A document is read as the value that was written, with its keys in order.** -/
theorem read_write {writer reader : Dialect} {pretty : Bool} {value : Json} {t : Text}
    (hfits : Fits reader reader.readDepth value) (h : write writer pretty value = .ok t) :
    read reader t.toUtf8 = .ok value.sortKeys := by
  have hsorted := hfits.sortKeys
  have hread := reads_print writer.floats (.ofPretty pretty) hsorted 0
  have hzero := zero_notMem_print writer.floats (.ofPretty pretty) hsorted 0
  obtain ⟨c, rest, hprint, hc, _⟩ :=
    print_eq_cons writer.floats (.ofPretty pretty) hsorted 0
  have ht := write_eq_ok h
  have hblanks : ∀ c ∈ (if pretty then ['\n'] else [] : Text), isSpace c = true := by
    intro c hc
    split at hc
    · rw [List.mem_singleton.mp hc]
      rfl
    · exact absurd hc List.not_mem_nil
  rw [hprint] at ht hread hzero
  have hall : readAll reader t = .ok value.sortKeys := by
    rw [ht]
    exact readAll_append hread hblanks
  have hnozero : '\x00' ∉ t := by
    rw [ht, List.mem_append, not_or]
    exact ⟨hzero, fun hmem => absurd (hblanks _ hmem) (by decide)⟩
  have htext : (if reader.guessesEncoding then Text.ofGuessed? t.toUtf8
      else Text.ofUtf8? t.toUtf8) = some t := by
    split
    · rw [ht] at hnozero ⊢
      exact Text.ofGuessed?_toUtf8 hc hnozero
    · exact Text.ofUtf8?_toUtf8 t
  rw [read, htext]
  simp only [parse, hall]
  rfl

end

/-! ### Values that all dialects follow -/

section
variable {dialect : Dialect} {room : ℕ} {value : Json}

theorem Fits.mono {more : ℕ} (h : Fits dialect room value) (hmore : room ≤ more) :
    Fits dialect more value := by
  induction h generalizing more with
  | null => exact .null
  | bool value => exact .bool value
  | int n hwidth hdigits => exact .int n hwidth hdigits
  | str s => exact .str s
  | arr items _ ih =>
      obtain ⟨inner, rfl⟩ : ∃ n, more = n + 1 := ⟨more - 1, by omega⟩
      exact .arr items fun item hitem => ih item hitem (by omega)
  | obj fields hkeys _ ih =>
      obtain ⟨inner, rfl⟩ : ∃ n, more = n + 1 := ⟨more - 1, by omega⟩
      exact .obj fields hkeys fun field hfield => ih field hfield (by omega)

theorem length_toDigits_le {n : ℤ} (h : fits64 n = true) :
    (Nat.toDigits 10 n.natAbs).length ≤ 20 := by
  rw [fits64, Bool.and_eq_true, decide_eq_true_iff, decide_eq_true_iff] at h
  rw [Nat.length_toDigits_le_iff (by decide) (by decide)]
  omega

/-- Both dialects follow what the strict one does. -/
theorem Fits.of_strict {reader : Dialect} (hreader : reader ∈ [Dialect.strict, .lenient])
    (h : Fits .strict room value) : Fits reader room value := by
  have hmost : ∀ most ∈ reader.maxDigits, 20 ≤ most := by
    simp only [List.mem_cons, List.not_mem_nil, or_false] at hreader
    rcases hreader with rfl | rfl
    · exact nofun
    · intro most hmost
      rw [← Option.some_inj.mp hmost]
      decide
  induction h with
  | null => exact .null
  | bool value => exact .bool value
  | int n hwidth _ =>
      refine .int n (by rw [Bool.or_eq_true]; exact Or.inr hwidth) fun most hmem => ?_
      exact Nat.le_trans (length_toDigits_le hwidth) (hmost most hmem)
  | str s => exact .str s
  | arr items _ ih => exact .arr items ih
  | obj fields hkeys _ ih => exact .obj fields hkeys ih

theorem wideIntegerInItems?_eq_none {items : List Json}
    (h : ∀ item ∈ items, item.wideInteger? = none) : wideIntegerInItems? items = none := by
  induction items with
  | nil => rfl
  | cons item items ih =>
      obtain ⟨hitem, hitems⟩ := List.forall_mem_cons.mp h
      rw [wideIntegerInItems?, hitem, ih hitems]
      rfl

theorem wideIntegerInFields?_eq_none {fields : List (String × Json)}
    (h : ∀ field ∈ fields, field.2.wideInteger? = none) : wideIntegerInFields? fields = none := by
  induction fields with
  | nil => rfl
  | cons field fields ih =>
      obtain ⟨hfield, hfields⟩ := List.forall_mem_cons.mp h
      rw [wideIntegerInFields?, hfield, ih hfields]
      rfl

theorem wideInteger?_eq_none (h : Fits .strict room value) : value.wideInteger? = none := by
  induction h with
  | null => rfl
  | bool value => rfl
  | int n hwidth _ => exact if_pos hwidth
  | str s => rfl
  | arr items _ ih => exact wideIntegerInItems?_eq_none ih
  | obj fields _ _ ih => exact wideIntegerInFields?_eq_none ih

/-- What the strict dialect follows is written, unless it is nested too deeply for the writer. -/
theorem write_of_fits {writer : Dialect} (pretty : Bool) (h : Fits .strict room value)
    (hdepth : ∀ most ∈ writer.writeDepth, value.depth ≤ most) :
    write writer pretty value = .ok (print writer.floats (.ofPretty pretty) 0 value.sortKeys ++
      if pretty then ['\n'] else []) := by
  have hlevels : writer.writeDepth.any (· < value.depth) = false := by
    cases hmost : writer.writeDepth with
    | none => rfl
    | some most => exact decide_eq_false (Nat.not_lt.mpr (hdepth most hmost))
  rw [write, wideInteger?_eq_none h, ite_self]
  simp only [hlevels, Bool.false_eq_true, if_false]

end

end TracedText.Json
