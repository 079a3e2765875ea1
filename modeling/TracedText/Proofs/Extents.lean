import TracedText.Proofs.Edits
import TracedText.Proofs.Stretches
import TracedText.Text.Extent

/-! # Ranges widened to whole lines

The scans that widen a range stop where the blanks end and behind one terminator, if one follows.
`Text.Widened` says what a widened range is without them: nothing but blanks and a terminator is taken,
and as much as there is.  A range has a widening, the one that the scans give (`widened`), and no other
(`Widened.eq`).  It can be deleted (`lineExtent_widened`). -/

namespace TracedText

namespace Text
variable {t taken rest ending : Text}

/-! ### Terminators -/

/-- The terminators of a line. -/
def terminators : List Text := [['\r', '\n'], ['\n'], ['\r']]

/-- The terminator that a text starts with, or nothing. -/
def leadingTerminator : Text → Text
  | '\r' :: '\n' :: _ => ['\r', '\n']
  | c :: _ => if isTerminator c then [c] else []
  | [] => []

theorem mem_terminators_iff :
    ending ∈ terminators ↔ ending = ['\r', '\n'] ∨ ending = ['\n'] ∨ ending = ['\r'] := by
  simp only [terminators, List.mem_cons, List.not_mem_nil, or_false]

theorem isBlank_of_mem_terminators (h : ending ∈ terminators) (rest : Text) :
    ∀ c ∈ (ending ++ rest).head?, isBlank c = false := by
  rcases mem_terminators_iff.mp h with rfl | rfl | rfl
  · exact fun c hc => Option.some.inj hc ▸ rfl
  · exact fun c hc => Option.some.inj hc ▸ rfl
  · exact fun c hc => Option.some.inj hc ▸ rfl

theorem mem_terminators_singleton {c : Char} (h : isTerminator c = true) : [c] ∈ terminators := by
  rw [isTerminator, Bool.or_eq_true, beq_iff_eq, beq_iff_eq] at h
  rcases h with rfl | rfl
  · decide
  · decide

theorem leadingTerminator_mem (t : Text) :
    leadingTerminator t ∈ terminators ∨ leadingTerminator t = [] := by
  fun_cases leadingTerminator t with
  | case1 rest => exact Or.inl (by decide)
  | case2 c rest _ h => exact Or.inl (mem_terminators_singleton h)
  | case3 c rest _ h => exact Or.inr rfl
  | case4 => exact Or.inr rfl

theorem leadingTerminator_isPrefix (t : Text) : leadingTerminator t <+: t := by
  fun_cases leadingTerminator t with
  | case1 rest => exact List.prefix_append ['\r', '\n'] rest
  | case2 c rest _ h => exact List.prefix_append [c] rest
  | case3 c rest _ h => exact List.nil_prefix
  | case4 => exact List.nil_prefix

theorem leadingTerminator_eq_nil_iff :
    leadingTerminator t = [] ↔ ∀ c ∈ t.head?, isTerminator c = false := by
  fun_cases leadingTerminator t with
  | case1 rest => exact iff_of_false nofun fun h => absurd (h '\r' rfl) (by decide)
  | case2 c rest _ h => exact iff_of_false nofun fun hnot => by simp [h] at hnot
  | case3 c rest _ h => simp [h]
  | case4 => simp

/-- Unless it starts with the pair, a text starts with the terminator that its first character is. -/
theorem leadingTerminator_cons {c : Char} (h : ¬(c = '\r' ∧ rest.head? = some '\n')) :
    leadingTerminator (c :: rest) = if isTerminator c then [c] else [] := by
  unfold leadingTerminator
  split
  · rename_i heq
    cases heq
    exact absurd ⟨rfl, rfl⟩ h
  · rename_i heq
    cases heq
    rfl
  · rename_i heq
    cases heq

/-- A terminator is met as a whole: the first of a pair does not count for one. -/
theorem leadingTerminator_append_iff : leadingTerminator (ending ++ rest) = ending ↔
    (ending ∈ terminators ∧ ¬(ending = ['\r'] ∧ rest.head? = some '\n')) ∨
      (ending = [] ∧ ∀ c ∈ rest.head?, isTerminator c = false) := by
  constructor
  · intro h
    rcases leadingTerminator_mem (ending ++ rest) with hmem | hnil
    · rw [h] at hmem
      refine Or.inl ⟨hmem, ?_⟩
      rintro ⟨rfl, hrest⟩
      obtain ⟨behind, rfl⟩ := List.head?_eq_some_iff.mp hrest
      have hpair : leadingTerminator (['\r'] ++ '\n' :: behind) = ['\r', '\n'] := rfl
      exact absurd (hpair.symm.trans h) (by decide)
    · obtain rfl : ending = [] := h.symm.trans hnil
      exact Or.inr ⟨rfl, leadingTerminator_eq_nil_iff.mp hnil⟩
  · rintro (⟨hmem, hwhole⟩ | ⟨rfl, hrest⟩)
    · rcases mem_terminators_iff.mp hmem with rfl | rfl | rfl
      · rfl
      · rfl
      · rw [List.singleton_append, leadingTerminator_cons fun hpair => hwhole ⟨rfl, hpair.2⟩]
        rfl
    · exact leadingTerminator_eq_nil_iff.mpr hrest

/-! ### Scans -/

theorem blankStart_natCast {n : ℕ} (h : n ≤ t.length) :
    t.blankStart n = .ok ((n - ((t.take n).reverse.takeWhile isBlank).length : ℕ) : ℤ) := by
  have hrun := (List.takeWhile_prefix isBlank (l := (t.take n).reverse)).length_le
  rw [List.length_reverse, List.length_take, min_eq_left h] at hrun
  unfold blankStart
  split
  · obtain rfl : n = 0 := by omega
    rfl
  · rw [if_pos (Int.ofNat_le.mpr h), Int.toNat_natCast, Int.ofNat_sub hrun]

theorem blankEnd_natCast (t : Text) (n : ℕ) :
    t.blankEnd n = .ok ((n + ((t.drop n).takeWhile isBlank).length : ℕ) : ℤ) := by
  unfold blankEnd
  split
  · rw [List.drop_eq_nil_of_le (by omega)]
    rfl
  · rw [onward_natCast]
    rfl

theorem skipTerminator_natCast (t : Text) (n : ℕ) :
    t.skipTerminator n = .ok ((n + (leadingTerminator (t.drop n)).length : ℕ) : ℤ) := by
  rw [skipTerminator, sliceFrom_natCast]
  cases hdrop : t.drop n with
  | nil =>
      have hend : t.length ≤ n := List.drop_eq_nil_iff.mp hdrop
      rw [if_neg (by decide), if_pos (Int.ofNat_le.mpr hend)]
      rfl
  | cons c rest =>
      have hc : t[n]? = some c := by rw [← List.head?_drop, hdrop, List.head?_cons]
      have hlt : n < t.length := (List.getElem?_eq_some_iff.mp hc).1
      by_cases hpair : c = '\r' ∧ rest.head? = some '\n'
      · obtain ⟨rfl, hrest⟩ := hpair
        obtain ⟨behind, rfl⟩ := List.head?_eq_some_iff.mp hrest
        rw [if_pos (by simp)]
        rfl
      · have hprefix : ¬['\r', '\n'].isPrefixOf (c :: rest) = true := by
          intro h
          obtain ⟨behind, hbehind⟩ := List.isPrefixOf_iff_prefix.mp h
          cases hbehind
          exact hpair ⟨rfl, rfl⟩
        rw [if_neg hprefix, if_neg (by omega), charAt_natCast hc,
          leadingTerminator_cons hpair]
        show Except.ok (if isTerminator c then (n : ℤ) + 1 else n) = _
        split
        · rfl
        · rfl

/-- The first offset of a widened range. -/
def widenedStart (t : Text) (start : ℕ) : ℕ :=
  start - ((t.take start).reverse.takeWhile isBlank).length

/-- The number of blanks at the start of a text and of the characters of the terminator behind them. -/
def rearLength (t : Text) : ℕ :=
  (t.takeWhile isBlank).length + (leadingTerminator (t.dropWhile isBlank)).length

/-- The last offset of a widened range. -/
def widenedStop (t : Text) (stop : ℕ) : ℕ := stop + rearLength (t.drop stop)

theorem lineExtent_natCast {start : ℕ} (hstart : start ≤ t.length) (stop : ℕ) :
    t.lineExtent start stop = .ok ((t.widenedStart start : ℤ), (t.widenedStop stop : ℤ)) := by
  have hbehind : t.drop (stop + ((t.drop stop).takeWhile isBlank).length) =
      (t.drop stop).dropWhile isBlank := by
    rw [← List.drop_drop]
    exact (take_drop_of_append List.takeWhile_append_dropWhile rfl).2
  have hnext : t.nextLine stop = .ok (t.widenedStop stop : ℤ) := by
    rw [nextLine, blankEnd_natCast]
    show t.skipTerminator ((stop + ((t.drop stop).takeWhile isBlank).length : ℕ) : ℤ) = _
    rw [skipTerminator_natCast, hbehind, Nat.add_assoc, widenedStop, rearLength]
  rw [lineExtent, blankStart_natCast hstart, hnext]
  rfl

/-! ### Widened ranges -/

/-- A range with the blanks around it and the terminator behind them, as many as there are. -/
structure Widened (t : Text) (start stop first last : ℕ) : Prop where
  first_le : first ≤ start
  le_last : stop ≤ last
  last_le : last ≤ t.length
  /-- Only blanks are taken in front. -/
  front : ∀ c ∈ t.slice first start, isBlank c = true
  /-- No blank is left in front. -/
  front_all : ∀ c ∈ (t.take first).getLast?, isBlank c = false
  /-- Behind, blanks are taken and one terminator, or none when what is left starts with neither. -/
  rear : ∃ blanks ending : Text, t.slice stop last = blanks ++ ending ∧
    (∀ c ∈ blanks, isBlank c = true) ∧
    (ending ∈ terminators ∨
      ending = [] ∧ ∀ c ∈ (t.drop last).head?, isBlank c = false ∧ isTerminator c = false)
  /-- No pair of terminators is parted. -/
  unparted : ¬((t.take last).getLast? = some '\r' ∧ (t.drop last).head? = some '\n')

variable {start stop first last : ℕ}

theorem front_iff (hfirst : first ≤ start) (hstart : start ≤ t.length) :
    (∀ c ∈ t.slice first start, isBlank c = true) ∧
        (∀ c ∈ (t.take first).getLast?, isBlank c = false) ↔
      first = t.widenedStart start := by
  have hlength : (t.take start).length = start := by rw [List.length_take, min_eq_left hstart]
  have hcut := cut_rear_iff (p := isBlank) (l := t.take start) (hfirst.trans hlength.ge)
  rw [List.take_take, min_eq_left hfirst, hlength] at hcut
  rw [slice_natCast]
  exact hcut

/-- Blanks and a terminator, or only blanks, are taken from a text of which `rest` is left, and as much
as there is. -/
def TakesRear (taken rest : Text) : Prop :=
  ∃ blanks ending : Text, taken = blanks ++ ending ∧ (∀ c ∈ blanks, isBlank c = true) ∧
    (ending ∈ terminators ∧ ¬(ending = ['\r'] ∧ rest.head? = some '\n') ∨
      ending = [] ∧ ∀ c ∈ rest.head?, isBlank c = false ∧ isTerminator c = false)

theorem TakesRear.length_eq (h : TakesRear taken rest) :
    taken.length = rearLength (taken ++ rest) := by
  obtain ⟨blanks, ending, rfl, hblanks, hending⟩ := h
  have hhead : ∀ c ∈ (ending ++ rest).head?, isBlank c = false := by
    rcases hending with ⟨hmem, -⟩ | ⟨rfl, hrest⟩
    · exact isBlank_of_mem_terminators hmem rest
    · exact fun c hc => (hrest c hc).1
  have hlead : leadingTerminator (ending ++ rest) = ending :=
    leadingTerminator_append_iff.mpr
      (hending.imp_right fun hnone => ⟨hnone.1, fun c hc => (hnone.2 c hc).2⟩)
  obtain ⟨hrun, hbehind⟩ := takeWhile_append hblanks hhead
  rw [rearLength, List.append_assoc, hrun, hbehind, hlead, List.length_append]

theorem takesRear_rearLength (t : Text) :
    TakesRear (t.take (rearLength t)) (t.drop (rearLength t)) := by
  obtain ⟨rest, hrest⟩ := leadingTerminator_isPrefix (t.dropWhile isBlank)
  have hsplit : t.takeWhile isBlank ++ leadingTerminator (t.dropWhile isBlank) ++ rest = t := by
    rw [List.append_assoc, hrest, List.takeWhile_append_dropWhile]
  obtain ⟨htake, hdrop⟩ := take_drop_of_append hsplit (List.length_append ..).symm
  rw [rearLength, htake, hdrop]
  refine ⟨_, _, rfl, fun c hc => List.mem_takeWhile_imp hc, ?_⟩
  have hlead := leadingTerminator_append_iff.mp (congrArg leadingTerminator hrest)
  refine hlead.imp_right fun hnone => ⟨hnone.1, fun c hc => ⟨?_, hnone.2 c hc⟩⟩
  rw [hnone.1, List.nil_append] at hrest
  rw [hrest] at hc
  exact head?_dropWhile c hc

theorem rearLength_le (t : Text) : rearLength t ≤ t.length := by
  have hlead := (leadingTerminator_isPrefix (t.dropWhile isBlank)).length_le
  have hsplit := congrArg List.length (List.takeWhile_append_dropWhile (p := isBlank) (l := t))
  rw [List.length_append] at hsplit
  unfold rearLength
  omega

theorem slice_add (t : Text) (stop count : ℕ) :
    t.slice stop (stop + count : ℕ) = (t.drop stop).take count := by
  rw [slice_natCast, List.take_drop]

theorem getLast?_take_add (t : Text) (stop count : ℕ) : (t.take (stop + count)).getLast? =
    (((t.drop stop).take count).getLast?).or (t.take stop).getLast? := by
  rw [List.take_add, List.getLast?_append]

/-- A widening of a range is what the scans give. -/
theorem Widened.eq (hw : t.Widened start stop first last) (hstart : start ≤ t.length) :
    first = t.widenedStart start ∧ last = t.widenedStop stop := by
  refine ⟨(front_iff hw.first_le hstart).mp ⟨hw.front, hw.front_all⟩, ?_⟩
  obtain ⟨count, rfl⟩ := Nat.exists_eq_add_of_le hw.le_last
  obtain ⟨blanks, ending, htake, hblanks, hending⟩ := hw.rear
  rw [slice_add] at htake
  have htakes : TakesRear ((t.drop stop).take count) ((t.drop stop).drop count) := by
    refine ⟨blanks, ending, htake, hblanks, ?_⟩
    rw [List.drop_drop]
    refine hending.imp_left fun hmem => ⟨hmem, ?_⟩
    rintro ⟨rfl, hnext⟩
    refine hw.unparted ⟨?_, hnext⟩
    rw [getLast?_take_add, htake, List.getLast?_append]
    rfl
  have hlength := htakes.length_eq
  have hlast := hw.last_le
  rw [List.take_append_drop, List.length_take, List.length_drop, min_eq_left (by omega)] at hlength
  rw [widenedStop, ← hlength]

/-- What the scans give is a widening of a range. -/
theorem widened (hstart : start ≤ t.length) (hstop : stop ≤ t.length) :
    t.Widened start stop (t.widenedStart start) (t.widenedStop stop) := by
  have hle : t.widenedStart start ≤ start := Nat.sub_le _ _
  have hrear := rearLength_le (t.drop stop)
  obtain ⟨hfront, hfrontAll⟩ := (front_iff hle hstart).mpr rfl
  obtain ⟨blanks, ending, htake, hblanks, hending⟩ := takesRear_rearLength (t.drop stop)
  rw [List.drop_drop] at hending
  rw [List.length_drop] at hrear
  refine ⟨hle, Nat.le_add_right _ _, ?_, hfront, hfrontAll, ⟨blanks, ending, ?_, hblanks, ?_⟩, ?_⟩
  · unfold widenedStop
    omega
  · rw [widenedStop, slice_add, htake]
  · exact hending.imp_left And.left
  · rintro ⟨hlast, hnext⟩
    rw [widenedStop, getLast?_take_add, htake, List.getLast?_append] at hlast
    rcases hending with ⟨hmem, hwhole⟩ | ⟨-, hnone⟩
    · rcases mem_terminators_iff.mp hmem with rfl | rfl | rfl
      · exact absurd (Option.some.inj hlast) (by decide)
      · exact absurd (Option.some.inj hlast) (by decide)
      · exact hwhole ⟨rfl, hnext⟩
    · exact absurd (hnone '\n' hnext).2 (by decide)

/-- **A widened range takes blanks and one terminator, as much as there is, and can be deleted.**  The
range that the scans give is the one widening of a range in a text, and deleting it from a buffer with
this text leaves what stands in front of it and behind. -/
theorem lineExtent_widened (h : start ≤ stop) (hstop : stop ≤ t.length) :
    ∃ first last : ℕ, t.lineExtent start stop = .ok ((first : ℤ), (last : ℤ)) ∧
      t.Widened start stop first last ∧
      (∀ first' last' : ℕ, t.Widened start stop first' last' → first' = first ∧ last' = last) ∧
      ∀ b : Buffer, b.text = t → ∃ left : Buffer, b.delete first (last - first) = .ok left ∧
        left.text = t.take first ++ t.drop last := by
  have hstart := h.trans hstop
  have hw := widened hstart hstop
  refine ⟨_, _, lineExtent_natCast hstart stop, hw, fun _ _ hw' => hw'.eq hstart, ?_⟩
  rintro b rfl
  have hle := (hw.first_le.trans h).trans hw.le_last
  have hlast := hw.last_le
  have hspan : (b.text.widenedStart start + (b.text.widenedStop stop - b.text.widenedStart start) : ℤ) =
      b.text.widenedStop stop := by omega
  refine ⟨_, Buffer.replace_eq_ok.mpr ⟨by omega, rfl⟩, ?_⟩
  rw [hspan, Int.toNat_natCast, Int.toNat_natCast]
  show b.text.take _ ++ [] ++ b.text.drop _ = _
  rw [List.append_nil]

/-- A line with blanks on both sides, between two others. -/
def indented : Text := ['a', '\n', ' ', '\t', 'b', ';', ' ', '\r', '\n', '\n', 'c']

theorem lineExtent_widened_indented :
    4 ≤ 6 ∧ 6 ≤ indented.length ∧ indented.lineExtent 4 6 = .ok (2, 9) ∧
      indented.Widened 4 6 2 9 ∧
      ∃ left, (Buffer.ofText indented).delete 2 7 = .ok left ∧
        left.text = ['a', '\n', '\n', 'c'] := by
  have hle : 4 ≤ 6 := by decide
  have hstop : 6 ≤ indented.length := by decide
  obtain ⟨first, last, hextent, hw, -, hdelete⟩ := lineExtent_widened hle hstop
  have hvalue : indented.lineExtent 4 6 = .ok (2, 9) := by decide
  obtain ⟨hfirst, hlast⟩ := Prod.mk.inj (Except.ok.inj (hextent.symm.trans hvalue))
  obtain rfl : first = 2 := Int.ofNat_inj.mp hfirst
  obtain rfl : last = 9 := Int.ofNat_inj.mp hlast
  exact ⟨hle, hstop, hvalue, hw, hdelete (Buffer.ofText indented) rfl⟩

end Text

end TracedText
