import Mathlib.Data.Nat.Digits.Defs
import TracedText.Proofs.Messages
import TracedText.Proofs.Quantities

/-! # Runs of digits

A text of digits falls into runs, each of them marked digits with one behind them that has no mark
(`isRun_of_mem_runs`), unless it ends inside one.  It is read as the integers of its runs, and a text
that is not of this kind is refused for its first character that is no digit, or else for its end
(`decode_runs`).  The reader hands the number of a run up from behind, digit by digit, and so the
proofs go by induction on the text: its first character is a run of its own or belongs to the first
run of the rest. -/

namespace TracedText.Vlq

/-! ### Runs of digits -/

/-- The character is a digit without a mark, and so the last of a value. -/
def endsValue (c : Char) : Bool := (digit? c).any (· < 32)

/-- The text does not end inside a value: it is empty, or its last character ends one. -/
def complete (text : Text) : Bool := text.getLast?.all endsValue

/-- The text cut behind every character that ends a value. -/
def runs : Text → List Text
  | [] => []
  | c :: rest =>
    if endsValue c then [c] :: runs rest
    else
      match runs rest with
      | [] => [[c]]
      | run :: others => (c :: run) :: others

/-- The number whose groups of five bits are the digits of a run, the least first. -/
def runNumber (run : Text) : ℕ := Nat.ofDigits 32 ((run.filterMap digit?).map (· % 32))

/-- The integer that a run spells. -/
def runValue (run : Text) : ℤ := unsigned (runNumber run)

variable {c : Char} {d : ℕ} {text rest run : Text}

theorem exists_digit? (h : c ∈ alphabet) : ∃ d, digit? c = some d :=
  Option.isSome_iff_exists.mp (List.isSome_idxOf?.mpr h)

theorem endsValue_of_digit? (h : digit? c = some d) : endsValue c = decide (d < 32) := by
  rw [endsValue, h, Option.any_some]

theorem complete_cons_iff :
    complete (c :: rest) = true ↔ complete rest = true ∧ (endsValue c = true ∨ rest ≠ []) := by
  cases rest with
  | nil => simp [complete]
  | cons other rest => simp [complete]

theorem complete_append {other : Text} (h : complete text) (hother : complete other) :
    complete (text ++ other) := by
  unfold complete at *
  rw [List.getLast?_append]
  cases hlast : other.getLast? with
  | none => exact h
  | some c =>
      rw [hlast] at hother
      exact hother

theorem runs_cons_of_ends (h : endsValue c = true) : runs (c :: rest) = [c] :: runs rest := by
  rw [runs, if_pos h]

theorem runs_cons_of_marked {others : List Text} (h : ¬endsValue c = true)
    (hrest : runs rest = run :: others) : runs (c :: rest) = (c :: run) :: others := by
  rw [runs, if_neg h, hrest]

theorem runs_eq_nil_iff : runs text = [] ↔ text = [] := by
  cases text with
  | nil => exact iff_of_true rfl rfl
  | cons c rest =>
      refine iff_of_false ?_ (List.cons_ne_nil _ _)
      unfold runs
      split
      · exact List.cons_ne_nil _ _
      · split <;> exact List.cons_ne_nil _ _

theorem exists_runs_eq_cons (h : text ≠ []) : ∃ run others, runs text = run :: others :=
  List.exists_cons_of_ne_nil (mt runs_eq_nil_iff.mp h)

theorem flatten_runs (text : Text) : (runs text).flatten = text := by
  fun_induction runs text with
  | case1 => rfl
  | case2 c rest _ ih => rw [List.flatten_cons, ih, List.singleton_append]
  | case3 c rest _ hrest ih => rw [runs_eq_nil_iff.mp hrest, List.flatten_singleton]
  | case4 c rest _ run others hrest ih =>
      rw [hrest, List.flatten_cons] at ih
      rw [List.flatten_cons, List.cons_append, ih]

theorem length_runs (h : complete text) : (runs text).length = text.countP endsValue := by
  induction text with
  | nil => rfl
  | cons c rest ih =>
      obtain ⟨hrest, hc⟩ := complete_cons_iff.mp h
      by_cases hends : endsValue c = true
      · rw [runs_cons_of_ends hends, List.countP_cons_of_pos hends, List.length_cons, ih hrest]
      · obtain ⟨run, others, hruns⟩ := exists_runs_eq_cons (hc.resolve_left hends)
        rw [runs_cons_of_marked hends hruns, List.countP_cons_of_neg hends, ← ih hrest, hruns,
          List.length_cons, List.length_cons]

theorem runs_append (h : complete text) (other : Text) :
    runs (text ++ other) = runs text ++ runs other := by
  induction text with
  | nil => rfl
  | cons c rest ih =>
      obtain ⟨hrest, hc⟩ := complete_cons_iff.mp h
      by_cases hends : endsValue c = true
      · rw [List.cons_append, runs_cons_of_ends hends, runs_cons_of_ends hends, ih hrest,
          List.cons_append]
      · obtain ⟨run, others, hruns⟩ := exists_runs_eq_cons (hc.resolve_left hends)
        have hboth : runs (rest ++ other) = run :: (others ++ runs other) := by
          rw [ih hrest, hruns, List.cons_append]
        rw [List.cons_append, runs_cons_of_marked hends hboth, runs_cons_of_marked hends hruns,
          List.cons_append]

/-- The text is one run of digits: marked ones and behind them one without a mark. -/
inductive IsRun : Text → Prop
  | last {c : Char} {d : ℕ} (hd : digit? c = some d) (hlast : d < 32) : IsRun [c]
  | more {c : Char} {d : ℕ} {run : Text} (hd : digit? c = some d) (hmarked : 32 ≤ d)
      (hrun : IsRun run) : IsRun (c :: run)

theorem isRun_of_mem_runs (h : ∀ c ∈ text, c ∈ alphabet) (hcomplete : complete text) :
    ∀ run ∈ runs text, IsRun run := by
  induction text with
  | nil => nofun
  | cons c rest ih =>
      obtain ⟨hmem, hdigits⟩ := List.forall_mem_cons.mp h
      obtain ⟨hrest, hc⟩ := complete_cons_iff.mp hcomplete
      obtain ⟨d, hd⟩ := exists_digit? hmem
      by_cases hends : endsValue c = true
      · have hlast : d < 32 := by simpa [endsValue_of_digit? hd] using hends
        rw [runs_cons_of_ends hends]
        exact List.forall_mem_cons.mpr ⟨.last hd hlast, ih hdigits hrest⟩
      · have hmarked : 32 ≤ d := by simpa [endsValue_of_digit? hd] using hends
        obtain ⟨run, others, hruns⟩ := exists_runs_eq_cons (hc.resolve_left hends)
        have hothers := ih hdigits hrest
        rw [hruns, List.forall_mem_cons] at hothers
        rw [runs_cons_of_marked hends hruns]
        exact List.forall_mem_cons.mpr ⟨.more hd hmarked hothers.1, hothers.2⟩

/-! ### Numbers of runs -/

theorem runNumber_cons (h : digit? c = some d) (run : Text) :
    runNumber (c :: run) = d % 32 + 32 * runNumber run := by
  rw [runNumber, List.filterMap_cons_some h, List.map_cons, Nat.ofDigits_cons, runNumber]

theorem runNumber_singleton (h : digit? c = some d) : runNumber [c] = d % 32 := by
  rw [runNumber_cons h]
  rfl

/-- Digits that do not end inside a number spell the numbers of their runs. -/
theorem numbers?_of_complete (h : ∀ c ∈ text, c ∈ alphabet) (hcomplete : complete text) :
    numbers? (text.filterMap digit?) = some ((runs text).map runNumber) := by
  induction text with
  | nil => rfl
  | cons c rest ih =>
      obtain ⟨hmem, hdigits⟩ := List.forall_mem_cons.mp h
      obtain ⟨hrest, hc⟩ := complete_cons_iff.mp hcomplete
      obtain ⟨d, hd⟩ := exists_digit? hmem
      have hlt := digit?_lt hd
      rw [List.filterMap_cons_some hd, numbers?, ih hdigits hrest]
      by_cases hends : endsValue c = true
      · have hlast : d < 32 := by simpa [endsValue_of_digit? hd] using hends
        rw [runs_cons_of_ends hends, List.map_cons, runNumber_singleton hd, Nat.mod_eq_of_lt hlast]
        simp only [if_pos hlast]
      · -- A marked digit is joined to the number of the first run behind it.
        have hmarked : ¬d < 32 := by simpa [endsValue_of_digit? hd] using hends
        obtain ⟨run, others, hruns⟩ := exists_runs_eq_cons (hc.resolve_left hends)
        have hpayload : d % 32 = d - 32 := by omega
        rw [runs_cons_of_marked hends hruns, hruns, List.map_cons, List.map_cons,
          runNumber_cons hd, hpayload]
        simp only [if_neg hmarked]

theorem numbers?_of_not_complete (h : ∀ c ∈ text, c ∈ alphabet) (hcomplete : ¬complete text) :
    numbers? (text.filterMap digit?) = none := by
  induction text with
  | nil => exact absurd rfl hcomplete
  | cons c rest ih =>
      obtain ⟨hmem, hdigits⟩ := List.forall_mem_cons.mp h
      obtain ⟨d, hd⟩ := exists_digit? hmem
      rw [complete_cons_iff] at hcomplete
      rw [List.filterMap_cons_some hd, numbers?]
      by_cases hrest : complete rest = true
      · obtain ⟨hends, rfl⟩ : ¬endsValue c = true ∧ rest = [] := by
          simpa [hrest] using hcomplete
        have hmarked : ¬d < 32 := by simpa [endsValue_of_digit? hd] using hends
        simp [numbers?, hmarked]
      · rw [ih hdigits hrest]

/-! ### Reading -/

theorem find?_foreign_eq_none (h : ∀ c ∈ text, c ∈ alphabet) :
    text.find? (fun c => (digit? c).isNone) = none := by
  rw [List.find?_eq_none]
  intro c hc
  obtain ⟨d, hd⟩ := exists_digit? (h c hc)
  rw [hd, Option.isNone_some]
  exact Bool.false_ne_true

theorem decode_of_complete (h : ∀ c ∈ text, c ∈ alphabet) (hcomplete : complete text) :
    decode text = .ok ((runs text).map runValue) := by
  simp only [decode, find?_foreign_eq_none h, numbers?_of_complete h hcomplete, List.map_map]
  rfl

theorem decode_of_not_complete (h : ∀ c ∈ text, c ∈ alphabet) (hcomplete : ¬complete text) :
    decode text = .error (.truncated text) := by
  simp only [decode, find?_foreign_eq_none h, numbers?_of_not_complete h hcomplete]

theorem decode_of_foreign {front rear : Text} (hfront : ∀ d ∈ front, d ∈ alphabet)
    (hc : c ∉ alphabet) :
    decode (front ++ c :: rear) = .error (.foreignChar c (front ++ c :: rear)) := by
  have hnone : digit? c = none := by
    rw [← Option.not_isSome_iff_eq_none]
    exact mt List.isSome_idxOf?.mp hc
  have hfind : (front ++ c :: rear).find? (fun d => (digit? d).isNone) = some c := by
    rw [List.find?_append, find?_foreign_eq_none hfront, Option.none_or]
    exact List.find?_cons_of_pos (by rw [hnone]; rfl)
  simp only [decode, hfind]

theorem decode_eq_ok_iff {values : List ℤ} :
    decode text = .ok values ↔
      (∀ c ∈ text, c ∈ alphabet) ∧ complete text ∧ values = (runs text).map runValue := by
  by_cases hdigits : ∀ c ∈ text, c ∈ alphabet
  · by_cases hcomplete : complete text = true
    · rw [decode_of_complete hdigits hcomplete, Except.ok.injEq, eq_comm]
      exact ⟨fun h => ⟨hdigits, hcomplete, h⟩, fun h => h.2.2⟩
    · rw [decode_of_not_complete hdigits hcomplete]
      exact iff_of_false nofun fun h => hcomplete h.2.1
  · refine iff_of_false (fun h => ?_) fun h => hdigits h.1
    have hsome : text.find? (fun c => (digit? c).isNone) = none := by
      unfold decode at h
      split at h
      · cases h
      · assumption
    refine hdigits fun c hc => List.isSome_idxOf?.mp (Option.isSome_iff_ne_none.mpr fun hnone => ?_)
    exact List.find?_eq_none.mp hsome c hc (Option.isNone_iff_eq_none.mpr hnone)

/-- The failure in words. -/
def Error.words : Error → String
  | .foreignChar c text =>
    String.join ["Invalid base64 VLQ character ", String.ofList (Text.literal [c]), " in ",
      String.ofList text.literal]
  | .truncated text => String.join ["Truncated base64 VLQ value in ", String.ofList text.literal]

theorem Error.render_message (error : Error) : error.message.render = .ok error.words := by
  cases error with
  | foreignChar c text => exact Message.render_words [_, _, _, _]
  | truncated text => exact Message.render_words [_, _]

theorem Error.told_words (error : Error) :
    (Failure.vlq error).told = (.vlq error, some error.words) := by
  have hmessage : (Failure.vlq error).message = some error.message := rfl
  rw [Failure.told, hmessage, Option.map_some, error.render_message]

/-- **What a text is read as.**  A text is read exactly when it consists of digits and does not end
inside a value, and then as the integers of its runs, as many as it has digits without a mark.  A text
with other characters is refused for the first of them, and a text of digits that ends inside a value
as truncated, each in words that show the text.  Texts that are read one behind the other are read as
one. -/
theorem decode_runs (text : Text) :
    (∀ values, decode text = .ok values ↔
      (∀ c ∈ text, c ∈ alphabet) ∧ complete text ∧ values = (runs text).map runValue) ∧
    (∀ values, decode text = .ok values → values.length = text.countP endsValue ∧
      (runs text).flatten = text ∧ ∀ run ∈ runs text, IsRun run) ∧
    (∀ front c rear, text = front ++ c :: rear → (∀ d ∈ front, d ∈ alphabet) → c ∉ alphabet →
      decode text = .error (.foreignChar c text)) ∧
    ((∀ c ∈ text, c ∈ alphabet) → ¬complete text → decode text = .error (.truncated text)) ∧
    (∀ error, decode text = .error error →
      (Failure.vlq error).told = (.vlq error, some error.words)) ∧
    ∀ other values others, decode text = .ok values → decode other = .ok others →
      decode (text ++ other) = .ok (values ++ others) := by
  refine ⟨fun _ => decode_eq_ok_iff, ?_, ?_, decode_of_not_complete, ?_, ?_⟩
  · intro values h
    obtain ⟨hdigits, hcomplete, rfl⟩ := decode_eq_ok_iff.mp h
    rw [List.length_map, length_runs hcomplete]
    exact ⟨rfl, flatten_runs text, isRun_of_mem_runs hdigits hcomplete⟩
  · rintro front c rear rfl hfront hc
    exact decode_of_foreign hfront hc
  · exact fun error _ => error.told_words
  · intro other values others h hother
    obtain ⟨hdigits, hcomplete, rfl⟩ := decode_eq_ok_iff.mp h
    obtain ⟨hdigits', hcomplete', rfl⟩ := decode_eq_ok_iff.mp hother
    rw [decode_eq_ok_iff, runs_append hcomplete, List.map_append]
    exact ⟨List.forall_mem_append.mpr ⟨hdigits, hdigits'⟩,
      complete_append hcomplete hcomplete', rfl⟩

/-- Sixteen and one; a character that is no digit in front of a value that does not end; a value that
does not end. -/
theorem decode_runs_mixed :
    decode ['g', 'B', 'C'] = .ok [16, 1] ∧ ['g', 'B', 'C'].countP endsValue = 2 ∧
      decode ['g', '!', 'g'] = .error (.foreignChar '!' ['g', '!', 'g']) ∧
      (Failure.vlq (.foreignChar '!' ['g', '!', 'g'])).told =
        (.vlq (.foreignChar '!' ['g', '!', 'g']),
          some (Error.foreignChar '!' ['g', '!', 'g']).words) ∧
      decode ['C', 'g'] = .error (.truncated ['C', 'g']) := by
  have hg : ∀ c ∈ ['g'], c ∈ alphabet := List.forall_mem_singleton.mpr (by decide)
  have hgB : ∀ c ∈ ['g', 'B'], c ∈ alphabet :=
    List.forall_mem_cons.mpr ⟨by decide, List.forall_mem_singleton.mpr (by decide)⟩
  have hC : ∀ c ∈ ['C'], c ∈ alphabet := List.forall_mem_singleton.mpr (by decide)
  have hCg : ∀ c ∈ ['C', 'g'], c ∈ alphabet := List.forall_mem_cons.mpr ⟨by decide, hg⟩
  have hfirst : decode ['g', 'B'] = .ok [16] := ((decode_runs _).1 _).mpr ⟨hgB, rfl, rfl⟩
  have hsecond : decode ['C'] = .ok [1] := ((decode_runs _).1 _).mpr ⟨hC, rfl, rfl⟩
  have hboth : decode ['g', 'B', 'C'] = .ok [16, 1] :=
    (decode_runs ['g', 'B']).2.2.2.2.2 ['C'] _ _ hfirst hsecond
  have hforeign : decode ['g', '!', 'g'] = .error (.foreignChar '!' ['g', '!', 'g']) :=
    (decode_runs _).2.2.1 ['g'] '!' ['g'] rfl hg (by decide)
  refine ⟨hboth, ((decode_runs _).2.1 _ hboth).1.symm, hforeign, ?_, ?_⟩
  · exact (decode_runs _).2.2.2.2.1 _ hforeign
  · exact (decode_runs _).2.2.2.1 hCg (by decide)

end TracedText.Vlq
