import TracedText.Proofs.Acceptance
import TracedText.Proofs.Messages

/-! # Documents that are refused

A map document that does not decode is told as a map that is none, as long as the failure can be put
into words (`decodeMap_outcome`).  It can when the document is `Showable`: the values that a message
may show can be said, and the mappings have so few characters that no running sum becomes too long.
A character of the mappings makes a sum at most thirty-two times as great (`Cursor.Within`), and this
bounds the numbers of all messages (`decodeLine_sayable`, `decodeLines_sayable`). -/

namespace TracedText

/-! ### Sizes of quantities -/

namespace Vlq

theorem numbers?_lt {digits numbers : List ℕ} (hdigits : ∀ d ∈ digits, d < 64)
    (h : numbers? digits = some numbers) :
    numbers.length ≤ digits.length ∧ ∀ n ∈ numbers, n < 32 ^ digits.length := by
  induction digits generalizing numbers with
  | nil =>
      cases h
      exact ⟨le_refl _, nofun⟩
  | cons digit rest ih =>
      have hdigit := hdigits digit List.mem_cons_self
      rw [numbers?] at h
      cases hrest : numbers? rest with
      | none =>
          rw [hrest] at h
          cases h
      | some others =>
          obtain ⟨hlength, hothers⟩ := ih (fun d hd => hdigits d (List.mem_cons_of_mem _ hd)) hrest
          have hpow : 32 ^ (digit :: rest).length = 32 * 32 ^ rest.length := by
            rw [List.length_cons, pow_succ, Nat.mul_comm]
          have hpos : 0 < 32 ^ rest.length := Nat.pow_pos (by decide)
          rw [hpow]
          rw [hrest] at h
          simp only at h
          split at h
          · cases h
            refine ⟨Nat.succ_le_succ hlength, List.forall_mem_cons.mpr ⟨by omega, fun n hn => ?_⟩⟩
            have := hothers n hn
            omega
          · cases others with
            | nil => cases h
            | cons first others =>
                cases h
                obtain ⟨hfirst, hothers⟩ := List.forall_mem_cons.mp hothers
                refine ⟨Nat.le_succ_of_le hlength,
                  List.forall_mem_cons.mpr ⟨by omega, fun n hn => ?_⟩⟩
                have := hothers n hn
                omega

theorem unsigned_natAbs_le (n : ℕ) : (unsigned n).natAbs ≤ n := by
  unfold unsigned
  simp only
  split <;> omega

/-- The integers that a text spells are no more than its characters, and each character makes them
at most thirty-two times as great. -/
theorem decode_lt {text : Text} {fields : List ℤ} (h : decode text = .ok fields) :
    fields.length ≤ text.length ∧ ∀ f ∈ fields, f.natAbs < 32 ^ text.length := by
  unfold decode at h
  split at h
  · cases h
  split at h
  · rename_i numbers hnumbers
    cases h
    have hdigits : ∀ d ∈ text.filterMap digit?, d < 64 := by
      intro d hd
      obtain ⟨c, _, hc⟩ := List.mem_filterMap.mp hd
      exact digit?_lt hc
    obtain ⟨hlength, hlt⟩ := numbers?_lt hdigits hnumbers
    have hshorter : (text.filterMap digit?).length ≤ text.length := List.length_filterMap_le _ _
    refine ⟨by rw [List.length_map]; exact le_trans hlength hshorter, ?_⟩
    intro f hf
    obtain ⟨n, hn, rfl⟩ := List.mem_map.mp hf
    calc (unsigned n).natAbs ≤ n := unsigned_natAbs_le n
      _ < 32 ^ (text.filterMap digit?).length := hlt n hn
      _ ≤ 32 ^ text.length := Nat.pow_le_pow_right (by decide) hshorter
  · cases h

end Vlq

/-! ### Running sums -/

/-- The index of a source and that of a name are below a power of thirty-two. -/
structure Cursor.Within (size : ℕ) (c : Cursor) : Prop where
  source : c.source.natAbs < 32 ^ size
  name : c.name.natAbs < 32 ^ size

theorem natAbs_add_lt {a b : ℤ} {m n : ℕ} (ha : a.natAbs < 32 ^ m) (hb : b.natAbs < 32 ^ n) :
    (a + b).natAbs < 32 ^ (m + n) := by
  have hsum := Int.natAbs_add_le a b
  have hm : 1 ≤ 32 ^ m := Nat.pow_pos (by decide)
  have hn : 1 ≤ 32 ^ n := Nat.pow_pos (by decide)
  rw [pow_add]
  nlinarith

section
variable {c : Cursor} {size line : ℕ} {text : Text} {segment : Segment}

/-- The indexes of a segment are bounded by what stands in front of it and its own characters. -/
theorem readSegment_within (hc : c.Within size) (h : readSegment line c text = .ok segment) :
    (c.after segment).Within (size + text.length) ∧
      ∀ o, segment.origin = some o → o.source.natAbs < 32 ^ (size + text.length) ∧
        ∀ i, o.name = some i → i.natAbs < 32 ^ (size + text.length) := by
  obtain ⟨fields, hfields, hsegment⟩ := readSegment_eq_ok.mp h
  obtain ⟨_, hlt⟩ := Vlq.decode_lt hfields
  have hwider : 32 ^ size ≤ 32 ^ (size + text.length) :=
    Nat.pow_le_pow_right (by decide) (Nat.le_add_right _ _)
  have hsource := lt_of_lt_of_le hc.source hwider
  have hname := lt_of_lt_of_le hc.name hwider
  unfold Cursor.segment? at hsegment
  split at hsegment
  · cases hsegment
    exact ⟨⟨hsource, hname⟩, nofun⟩
  · cases hsegment
    simp only [List.forall_mem_cons] at hlt
    have hsum := natAbs_add_lt hc.source hlt.2.1
    refine ⟨⟨hsum, hname⟩, ?_⟩
    rintro _ ⟨⟩
    exact ⟨hsum, nofun⟩
  · cases hsegment
    simp only [List.forall_mem_cons] at hlt
    have hsum := natAbs_add_lt hc.source hlt.2.1
    have hindex := natAbs_add_lt hc.name hlt.2.2.2.2.1
    refine ⟨⟨hsum, hindex⟩, ?_⟩
    rintro _ ⟨⟩
    refine ⟨hsum, ?_⟩
    rintro _ ⟨⟩
    exact hindex
  · cases hsegment

theorem readSegment_sayable {e : FormatError} (h : readSegment line c text = .error e)
    (hline : (Piece.number line).Sayable) (htext : text.length < Nat.pow 10 Bounds.digits) :
    e.message.Sayable := by
  unfold readSegment at h
  split at h
  · rename_i error _
    cases h
    cases error <;> simp [FormatError.message, Vlq.Error.message]
  · rename_i fields hfields
    split at h
    · cases h
      have hcount : (Piece.number fields.length).Sayable :=
        lt_of_le_of_lt (Vlq.decode_lt hfields).1 htext
      simp [FormatError.message, hline, hcount]
    · cases h

theorem toEntry_sayable {header : Header} {one_le_line : 1 ≤ line} {e : FormatError}
    (h : segment.toEntry header line one_le_line = .error e)
    (hline : (Piece.number line).Sayable)
    (horigin : ∀ o, segment.origin = some o → (Piece.number o.source).Sayable ∧
      ∀ i, o.name = some i → (Piece.number i).Sayable) :
    e.message.Sayable := by
  unfold Segment.toEntry at h
  split at h
  · cases h
    simp [FormatError.message, hline]
  split at h
  · cases h
  rename_i o ho
  obtain ⟨hsource, hname⟩ := horigin o ho
  split at h
  · cases h
    simp [FormatError.message, hsource, hline]
  rcases bind_eq_error.mp h with h | ⟨_, _, h⟩
  · unfold readName at h
    split at h
    · cases h
    rename_i i hi
    split at h
    · cases h
      simp [FormatError.message, hname i hi, hline]
    · cases h
  · cases h

/-- **The failures of one line can be told** when its characters and those in front of it are few;
else the line leaves the cursor bounded. -/
theorem decodeLine_sayable {header : Header} {one_le_line : 1 ≤ line} {texts : List Text}
    (hline : (Piece.number line).Sayable) (hc : c.Within size)
    (hsize : 32 ^ (size + (texts.map List.length).sum) ≤ Nat.pow 10 Bounds.digits) :
    (∀ e, decodeLine header line one_le_line c texts = .error e → e.message.Sayable) ∧
      ∀ entries last, decodeLine header line one_le_line c texts = .ok (entries, last) →
        last.Within (size + (texts.map List.length).sum) := by
  induction texts generalizing c size with
  | nil =>
      refine ⟨nofun, ?_⟩
      rintro _ _ ⟨⟩
      exact hc
  | cons text rest ih =>
      rw [List.map_cons, List.sum_cons, ← Nat.add_assoc] at hsize ⊢
      have hsmaller : 32 ^ (size + text.length) ≤ Nat.pow 10 Bounds.digits :=
        le_trans (Nat.pow_le_pow_right (by decide) (Nat.le_add_right _ _)) hsize
      have htext : text.length < Nat.pow 10 Bounds.digits := by
        refine lt_of_lt_of_le ?_ hsmaller
        exact lt_of_le_of_lt (Nat.le_add_left _ _) (Nat.lt_pow_self (by decide))
      constructor
      · intro e h
        rw [decodeLine] at h
        rcases bind_eq_error.mp h with h | ⟨segment, hsegment, h⟩
        · exact readSegment_sayable h hline htext
        obtain ⟨hafter, horigin⟩ := readSegment_within hc hsegment
        rcases bind_eq_error.mp h with h | ⟨entry, _, h⟩
        · refine toEntry_sayable h hline fun o ho => ?_
          obtain ⟨hsource, hname⟩ := horigin o ho
          exact ⟨lt_of_lt_of_le hsource hsmaller,
            fun i hi => lt_of_lt_of_le (hname i hi) hsmaller⟩
        rcases bind_eq_error.mp h with h | ⟨_, _, h⟩
        · exact (ih hafter hsize).1 e h
        · cases h
      · intro entries last h
        rw [decodeLine] at h
        obtain ⟨segment, hsegment, h⟩ := bind_eq_ok.mp h
        obtain ⟨hafter, _⟩ := readSegment_within hc hsegment
        obtain ⟨entry, _, h⟩ := bind_eq_ok.mp h
        obtain ⟨⟨others, final⟩, hothers, h⟩ := bind_eq_ok.mp h
        cases h
        exact (ih hafter hsize).2 _ _ hothers

end

/-! ### Lines -/

theorem Cursor.Within.mono {c : Cursor} {size larger : ℕ} (hc : c.Within size)
    (h : size ≤ larger) : c.Within larger := by
  have hpow : 32 ^ size ≤ 32 ^ larger := Nat.pow_le_pow_right (by decide) h
  exact ⟨lt_of_lt_of_le hc.source hpow, lt_of_lt_of_le hc.name hpow⟩

theorem length_intercalate_add_one (separator : Char) {parts : List Text} (h : parts ≠ []) :
    ([separator].intercalate parts).length + 1 = (parts.map List.length).sum + parts.length := by
  induction parts with
  | nil => exact absurd rfl h
  | cons first rest ih =>
      cases rest with
      | nil => simp
      | cons second others =>
          have := ih (List.cons_ne_nil _ _)
          rw [List.intercalate_cons_cons, List.length_append, List.length_append, List.map_cons,
            List.sum_cons, List.length_singleton, List.length_cons (a := first)]
          omega

theorem sum_length_splitOn (separator : Char) (t : Text) :
    ((t.splitOn separator).map List.length).sum + (t.splitOn separator).length = t.length + 1 := by
  rw [← length_intercalate_add_one separator (List.splitOn_ne_nil _ _), List.intercalate_splitOn]

theorem sum_length_segmentsOf (line : Text) :
    ((segmentsOf line).map List.length).sum ≤ line.length := by
  have hparts := sum_length_splitOn ',' line
  have hpos := List.length_pos_iff.mpr (List.splitOn_ne_nil ',' line)
  have hfilter : (segmentsOf line).Sublist (line.splitOn ',') := List.filter_sublist
  have := (hfilter.map List.length).sum_le_sum (fun _ _ => Nat.zero_le _)
  omega

/-- **The failures of the mappings can be told** when their characters and lines are few. -/
theorem decodeLines_sayable {header : Header} {line size : ℕ} {one_le_line : 1 ≤ line} {c : Cursor}
    {lines : List Text} {e : FormatError}
    (h : decodeLines header line one_le_line c lines = .error e)
    (hline : line + lines.length ≤ Nat.pow 10 Bounds.digits) (hc : c.Within size)
    (hsize : 32 ^ (size + (lines.map List.length).sum) ≤ Nat.pow 10 Bounds.digits) :
    e.message.Sayable := by
  induction lines generalizing line c size with
  | nil => cases h
  | cons text rest ih =>
      rw [List.length_cons] at hline
      rw [List.map_cons, List.sum_cons, ← Nat.add_assoc] at hsize
      have hsegments := sum_length_segmentsOf text
      have hfirst : line < Nat.pow 10 Bounds.digits := by omega
      have hsmaller : 32 ^ (size + ((segmentsOf text).map List.length).sum) ≤
          Nat.pow 10 Bounds.digits :=
        le_trans (Nat.pow_le_pow_right (by decide) (by omega)) hsize
      have hnext : c.nextLine.Within size := ⟨hc.source, hc.name⟩
      rw [decodeLines] at h
      rcases bind_eq_error.mp h with h | ⟨⟨entries, last⟩, hentries, h⟩
      · exact (decodeLine_sayable hfirst hnext hsmaller).1 e h
      have hlast := (decodeLine_sayable hfirst hnext hsmaller).2 entries last hentries
      rcases bind_eq_error.mp h with h | ⟨_, _, h⟩
      · exact ih h (by omega) (hlast.mono (Nat.add_le_add_left hsegments size)) hsize
      · cases h

/-! ### Documents -/

/-- What a failure may show of a document can be put into words: its version, the items of its
tables, and the sums of its mappings, which have at most half as many characters as a number that is
told may have digits. -/
structure Showable (document : Json) : Prop where
  version : ∀ value, document.get? "version" = some value → value.message.Sayable
  items : ∀ key ∈ ["sources", "names"], ∀ items, document.get? key = some (.arr items) →
    ∀ item ∈ items, item.message.Sayable
  mappings : ∀ mappings, document.get? "mappings" = some (.str mappings) →
    2 * mappings.toList.length ≤ Bounds.digits

section
variable {document : Json} {e : FormatError}

theorem null_message_sayable : Json.null.message.Sayable := by
  rw [show Json.null.message = [.words "None"] from rfl, Message.sayable_cons]
  exact ⟨trivial, Message.sayable_nil⟩

theorem readRoot_sayable (h : readRoot document = .error e) : e.message.Sayable := by
  unfold readRoot at h
  split at h
  · cases h
  split at h
  · cases h
  split at h
  · cases h
  · cases h
    simp [FormatError.message]

theorem readTable_sayable {key : String} (h : readTable document key = .error e)
    (hitems : ∀ items, document.get? key = some (.arr items) →
      ∀ item ∈ items, item.message.Sayable) : e.message.Sayable := by
  unfold readTable at h
  split at h
  · cases h
  · rename_i items hvalue
    obtain ⟨item, hmem, h⟩ := exists_of_mapM_eq_error h
    split at h
    · cases h
    · cases h
    · cases h
      simp [FormatError.message, hitems items hvalue item hmem]
  · cases h
    simp [FormatError.message]

theorem readHeader_sayable (hdocument : Showable document) (h : readHeader document = .error e) :
    e.message.Sayable := by
  have hwords (s : String) : Message.Sayable [.words s] :=
    Message.sayable_cons.mpr ⟨trivial, Message.sayable_nil⟩
  cases document with
  | obj fields =>
      rw [readHeader_obj] at h
      split at h
      · cases h
        exact hwords _
      split at h
      · split at h
        · rcases bind_eq_error.mp h with h | ⟨_, _, h⟩
          · exact readRoot_sayable h
          rcases bind_eq_error.mp h with h | ⟨_, _, h⟩
          · exact readTable_sayable h (hdocument.items _ (by decide))
          rcases bind_eq_error.mp h with h | ⟨_, _, h⟩
          · exact readTable_sayable h (hdocument.items _ (by decide))
          · cases h
        · cases h
          exact hwords _
      · cases h
        refine Message.sayable_cons.mpr ⟨trivial, ?_⟩
        cases hvalue : (Json.obj fields).get? "version" with
        | none => exact null_message_sayable
        | some value => exact hdocument.version value hvalue
  | _ =>
      cases h
      exact hwords _

/-- Mappings of few characters have few lines, and their sums are short enough for words. -/
theorem bounds_of_short {length digits : ℕ} (h : 2 * length ≤ digits) (hdigits : digits ≠ 0) :
    1 + (length + 1) ≤ Nat.pow 10 digits ∧ 32 ^ length ≤ Nat.pow 10 digits := by
  have hpow : digits < 10 ^ digits := Nat.lt_pow_self (by decide)
  constructor
  · show _ ≤ 10 ^ digits
    omega
  · calc 32 ^ length ≤ 100 ^ length := Nat.pow_le_pow_left (by decide) length
      _ = 10 ^ (2 * length) := (pow_mul 10 2 length).symm
      _ ≤ 10 ^ digits := Nat.pow_le_pow_right (by decide) h

/-- **A document that can be shown is refused in words.** -/
theorem decodeMap_sayable (hdocument : Showable document) (h : decodeMap document = .error e) :
    e.message.Sayable := by
  unfold decodeMap at h
  rcases bind_eq_error.mp h with h | ⟨header, hheader, h⟩
  · exact readHeader_sayable hdocument h
  rcases bind_eq_error.mp h with h | ⟨_, _, h⟩
  · have hmappings := (readHeader_eq_ok.mp hheader).mappings
    have hshort := hdocument.mappings _ hmappings
    rw [String.toList_ofList] at hshort
    have hparts := sum_length_splitOn ';' header.mappings
    have hpos := List.length_pos_iff.mpr (List.splitOn_ne_nil ';' header.mappings)
    obtain ⟨hlines, hsums⟩ := bounds_of_short hshort (by decide)
    have hstart : Cursor.start.Within 0 := ⟨Nat.one_pos, Nat.one_pos⟩
    refine decodeLines_sayable h (by omega) hstart ?_
    refine le_trans (Nat.pow_le_pow_right (by decide) ?_) hsums
    omega
  · cases h

/-- **What decoding a document comes to.** It gives entries exactly when the format allows the
header and the segments are spelled and fit it, and these are the entries of the segments in the
stable order of their generated positions.  Any other document is told as malformed, as far as this
can be said. -/
theorem decodeMap_outcome (document : Json) :
    (∀ entries, decodeMap document = .ok entries ↔
      ∃ header rows, HeaderOf document header ∧ Spells header.mappings rows ∧
        (∀ spot ∈ Spot.ofRows [] rows, spot.Fits header) ∧
        SortedBy Entry.place (entriesOf header rows) entries) ∧
    ∀ e, decodeMap document = .error e →
      (e.message.Sayable → ∃ words, (Failure.format e).told = (.format e, some words)) ∧
      (¬e.message.Sayable → ∃ reason, (Failure.format e).told = (.unsayable reason, none)) ∧
      (Showable document → e.message.Sayable) := by
  refine ⟨fun _ => decodeMap_eq_ok_iff, fun e h => ⟨?_, ?_, ?_⟩⟩
  · exact fun hwords => Failure.told_of_sayable rfl hwords
  · exact fun hwords => Failure.told_of_not_sayable rfl hwords
  · exact fun hdocument => decodeMap_sayable hdocument h

end

/-- A document whose one segment starts in front of its line. -/
def leftward : Document := ⟨"out", "", [], [], ['D']⟩

theorem decodeMap_outcome_leftward :
    decodeMap leftward.toJson = .error (.column 1) ∧ Showable leftward.toJson ∧
      ∃ words, (Failure.format (.column 1)).told = (.format (.column 1), some words) := by
  have hrefused : decodeMap leftward.toJson = .error (.column 1) := rfl
  have hshowable : Showable leftward.toJson := by
    refine ⟨?_, ?_, ?_⟩
    · rintro _ ⟨⟩
      exact Message.sayable_cons.mpr ⟨Piece.sayable_of_lt_ten (by decide), Message.sayable_nil⟩
    · simp only [List.forall_mem_cons]
      refine ⟨?_, ?_, nofun⟩
      · rintro _ ⟨⟩
        exact nofun
      · rintro _ ⟨⟩
        exact nofun
    · rintro _ ⟨⟩
      decide
  obtain ⟨htold, _, hsayable⟩ := (decodeMap_outcome leftward.toJson).2 _ hrefused
  exact ⟨hrefused, hshowable, htold (hsayable hshowable)⟩

/-- A document without sources whose one segment has a source. -/
def sourceless (index : ℕ) : Document :=
  ⟨"", "", [], [],
    [';'].intercalate (Cursor.start.encodeLines [[⟨0, some ⟨index, 0, 0, none⟩⟩]])⟩

theorem decodeMap_sourceless (index : ℕ) :
    decodeMap (sourceless index).toJson = .error (.sourceIndex index 1) := by
  have hline := splitOn_line Cursor.start.nextLine [⟨0, some ⟨index, 0, 0, none⟩⟩]
  have hlines : (sourceless index).mappings.splitOn ';' = _ :=
    splitOn_lines Cursor.start (List.cons_ne_nil _ [])
  unfold decodeMap
  rw [readHeader_toJson]
  refine bind_eq_error.mpr (Or.inr ⟨_, rfl, bind_eq_error.mpr (Or.inl ?_)⟩)
  simp only [hlines]
  rw [Cursor.encodeLines, decodeLines]
  simp only [hline]
  rw [Cursor.encodeLine, decodeLine, readSegment_encode]
  refine bind_eq_error.mpr (Or.inl (bind_eq_error.mpr (Or.inr ⟨_, rfl, ?_⟩)))
  refine bind_eq_error.mpr (Or.inl ?_)
  have hitem : tableItem? [] (index : ℤ) = none := by
    rw [tableItem?, List.getElem?_nil, ite_self]
  unfold Segment.toEntry
  rw [if_neg (lt_irrefl 0)]
  simp only [sourceless, List.map_nil, hitem]

/-- A source too far away for words is not told as such. -/
theorem decodeMap_sourceless_far :
    ∃ e, decodeMap (sourceless (Nat.pow 10 Bounds.digits)).toJson = .error e ∧
      (Failure.format e).told = (.unsayable .longNumber, none) := by
  refine ⟨_, decodeMap_sourceless _, ?_⟩
  refine Failure.told_of_longNumber ["Source index "] _ rfl ?_ (Int.natAbs_natCast _).ge
  exact Message.sayable_cons.mpr ⟨trivial, Message.sayable_nil⟩

end TracedText
