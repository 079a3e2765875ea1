import Mathlib.Data.List.Induction
import TracedText.Map.Index
import TracedText.Proofs.Sorting

/-! # What an index finds

In an index in the order of the generated positions the search for a position ends at the last entry
of its line whose column is not beyond (`find?_eq_getLast?`).  The entries up to the position stand in
front of the others, and among them those of its line stand behind those of the lines above; the last
value of a kind is the last value of all when the values of the kind stand at the end
(`getLast?_filter`).

Said of entries in any order, it is the entry that covers the position (`Entry.Covers`), the last given
of those in the nearest column (`find?_covering`).  Which entry covers a position depends on the
entries of each place alone, and so a stable sort keeps it (`Entry.Covers.of_filter_place_eq`). -/

namespace TracedText

/-- When the values of a kind stand at the end, the last of them is the last of all, if there are
any. -/
theorem getLast?_filter {α : Type} {kind : α → Bool} {values : List α}
    (h : values.Pairwise fun a b => kind a = true → kind b = true) :
    (values.filter kind).getLast? = values.getLast?.filter kind := by
  induction values using List.reverseRecOn with
  | nil => rfl
  | append_singleton front last _ =>
      obtain ⟨_, _, hlast⟩ := List.pairwise_append.mp h
      rw [List.filter_append, List.getLast?_concat, Option.filter_some]
      by_cases hkind : kind last = true
      · rw [if_pos hkind, List.filter_cons_of_pos hkind, List.filter_nil, List.getLast?_concat]
      · have hfront : front.filter kind = [] := by
          rw [List.filter_eq_nil_iff]
          intro a ha hka
          exact hkind (hlast a ha last (List.mem_singleton_self last) hka)
        rw [if_neg hkind, hfront, List.filter_cons_of_neg hkind]
        rfl

namespace Entry

/-- The entry is not behind a generated position. -/
def upTo (line column : ℤ) (e : Entry) : Bool :=
  (e.line : ℤ) < line || ((e.line : ℤ) == line && (e.column : ℤ) ≤ column)

theorem upTo_iff {line column : ℤ} {e : Entry} :
    e.upTo line column = true ↔ e.line < line ∨ e.line = line ∧ e.column ≤ column := by
  simp [upTo]

theorem upTo_of_place_le {line column : ℤ} {a b : Entry} (h : a.place ≤ b.place)
    (hb : b.upTo line column = true) : a.upTo line column = true := by
  rw [place, place, Prod.Lex.toLex_le_toLex] at h
  rw [upTo_iff] at hb ⊢
  omega

end Entry

namespace MapIndex
variable {index : MapIndex}

theorem upTo_eq_filter (h : index.entries.Pairwise fun a b => a.place ≤ b.place)
    (line column : ℤ) : index.upTo line column = index.entries.filter (Entry.upTo line column) :=
  take_bisect (Parted.of_pairwise h fun _ _ => Entry.upTo_of_place_le)

/-- **The search finds the last entry of the line that is not behind the column**, if this entry has
a source. -/
theorem find?_eq_getLast? (h : index.entries.Pairwise fun a b => a.place ≤ b.place)
    (line column : ℤ) :
    index.find? line column =
      (index.entries.filter fun e => e.line = line ∧ e.column ≤ column).getLast?.filter
        (·.source.isSome) := by
  have hline : (index.entries.filter (Entry.upTo line column)).filter (fun e => e.line = line) =
      index.entries.filter fun e => e.line = line ∧ e.column ≤ column := by
    rw [List.filter_filter]
    refine List.filter_congr fun e _ => ?_
    rw [Bool.eq_iff_iff, Bool.and_eq_true, decide_eq_true_iff, decide_eq_true_iff, Entry.upTo_iff]
    omega
  -- Of the entries up to the position, those of its line stand at the end.
  have hlast : (index.entries.filter (Entry.upTo line column)).Pairwise fun a b =>
      decide ((a.line : ℤ) = line) = true → decide ((b.line : ℤ) = line) = true := by
    refine (h.filter _).imp_of_mem fun {a b} _ hb hab ha => ?_
    have hupTo := Entry.upTo_iff.mp (List.mem_filter.mp hb).2
    rw [Entry.place, Entry.place, Prod.Lex.toLex_le_toLex] at hab
    rw [decide_eq_true_iff] at ha ⊢
    omega
  rw [← hline, getLast?_filter hlast, find?, upTo_eq_filter h]
  cases (index.entries.filter (Entry.upTo line column)).getLast? with
  | none => rfl
  | some e => by_cases he : (e.line : ℤ) = line <;> simp [Option.filter, he]

end MapIndex

/-! ### Entries in any order -/

namespace Entry

/-- Among entries in any order this one covers a generated position: it is on the line and not beyond
the column, none of the others there has a greater column, and of the entries at its place it is the
last given. -/
structure Covers (entries : List Entry) (line column : ℤ) (e : Entry) : Prop where
  on_line : (e.line : ℤ) = line
  not_beyond : (e.column : ℤ) ≤ column
  nearest : ∀ other ∈ entries, (other.line : ℤ) = line → (other.column : ℤ) ≤ column →
    other.column ≤ e.column
  last : (entries.filter fun other => other.place = e.place).getLast? = some e

variable {entries others : List Entry} {line column : ℤ} {e other : Entry}

theorem place_eq_iff : e.place = other.place ↔ e.line = other.line ∧ e.column = other.column := by
  rw [place, place, toLex_inj, Prod.mk.injEq]

theorem filter_place_of_kept {kept : Entry → Bool}
    (h : ∀ other : Entry, other.place = e.place → kept other = true) :
    (entries.filter kept).filter (fun other => other.place = e.place) =
      entries.filter fun other => other.place = e.place := by
  rw [List.filter_filter]
  refine List.filter_congr fun other _ => ?_
  rw [Bool.eq_iff_iff, Bool.and_eq_true, decide_eq_true_iff]
  exact and_iff_left_of_imp (h other)

namespace Covers

theorem mem (h : Covers entries line column e) : e ∈ entries :=
  (List.mem_filter.mp (List.mem_of_getLast? h.last)).1

theorem unique (h : Covers entries line column e) (hother : Covers entries line column other) :
    e = other := by
  have hline : e.line = other.line := by exact_mod_cast h.on_line.trans hother.on_line.symm
  have hcolumn : e.column = other.column :=
    le_antisymm (hother.nearest e h.mem h.on_line h.not_beyond)
      (h.nearest other hother.mem hother.on_line hother.not_beyond)
  have hlast := h.last
  rw [place_eq_iff.mpr ⟨hline, hcolumn⟩, hother.last] at hlast
  exact (Option.some.inj hlast).symm

/-- What covers a position depends on nothing but the order of the entries at each place. -/
theorem of_filter_place_eq (h : Covers entries line column e)
    (hsame : ∀ k, entries.filter (fun other => other.place = k) =
      others.filter fun other => other.place = k) : Covers others line column e :=
  ⟨h.on_line, h.not_beyond,
    fun other hmem => h.nearest other (mem_of_filter_eq (fun k => (hsame k).symm) hmem),
    hsame e.place ▸ h.last⟩

end Covers

/-- Only the entries of its line matter for what covers a position. -/
theorem covers_filter_line :
    Covers (entries.filter fun e => (e.line : ℤ) = line) line column e ↔
      Covers entries line column e := by
  have hplace (hline : (e.line : ℤ) = line) :
      (entries.filter fun e => (e.line : ℤ) = line).filter (fun other => other.place = e.place) =
        entries.filter fun other => other.place = e.place := by
    refine filter_place_of_kept fun other hother => decide_eq_true ?_
    rw [(place_eq_iff.mp hother).1, hline]
  constructor
  · rintro ⟨hline, hcolumn, hnearest, hlast⟩
    refine ⟨hline, hcolumn, fun other hmem hon => ?_, hplace hline ▸ hlast⟩
    exact hnearest other (List.mem_filter.mpr ⟨hmem, decide_eq_true hon⟩) hon
  · rintro ⟨hline, hcolumn, hnearest, hlast⟩
    exact ⟨hline, hcolumn, fun other hmem => hnearest other (List.mem_filter.mp hmem).1,
      (hplace hline).symm ▸ hlast⟩

theorem covers_of_getLast? (h : entries.Pairwise fun a b => a.place ≤ b.place)
    (hlast : (entries.filter fun e => (e.line : ℤ) = line ∧ (e.column : ℤ) ≤ column).getLast? =
      some e) : Covers entries line column e := by
  obtain ⟨hline, hcolumn⟩ := of_decide_eq_true (List.mem_filter.mp (List.mem_of_getLast? hlast)).2
  obtain ⟨front, hfront⟩ := List.getLast?_eq_some_iff.mp hlast
  have hordered := h.filter fun e => decide ((e.line : ℤ) = line ∧ (e.column : ℤ) ≤ column)
  rw [hfront] at hordered
  refine ⟨hline, hcolumn, fun other hother hon hup => ?_, ?_⟩
  · have hin : other ∈ front ++ [e] :=
      hfront ▸ List.mem_filter.mpr ⟨hother, decide_eq_true ⟨hon, hup⟩⟩
    rcases List.mem_append.mp hin with hin | hin
    · have hle := (List.pairwise_append.mp hordered).2.2 other hin e List.mem_cons_self
      rw [place, place, Prod.Lex.toLex_le_toLex] at hle
      omega
    · rw [List.mem_singleton.mp hin]
  · have hplace : (entries.filter fun other => other.place = e.place) =
        (front ++ [e]).filter fun other => other.place = e.place := by
      rw [← hfront, filter_place_of_kept fun other hother => decide_eq_true ?_]
      rw [(place_eq_iff.mp hother).1, (place_eq_iff.mp hother).2]
      exact ⟨hline, hcolumn⟩
    rw [hplace, List.filter_append]
    simp

/-- **In the order of the places, the entry that covers a position is the last one up to it on its
line.** -/
theorem getLast?_eq_some_iff_covers (h : entries.Pairwise fun a b => a.place ≤ b.place) :
    (entries.filter fun e => (e.line : ℤ) = line ∧ (e.column : ℤ) ≤ column).getLast? = some e ↔
      Covers entries line column e := by
  refine ⟨covers_of_getLast? h, fun hcovered => ?_⟩
  have hmem : e ∈ entries.filter fun e => (e.line : ℤ) = line ∧ (e.column : ℤ) ≤ column :=
    List.mem_filter.mpr ⟨hcovered.mem, decide_eq_true ⟨hcovered.on_line, hcovered.not_beyond⟩⟩
  cases hlast : (entries.filter fun e => (e.line : ℤ) = line ∧ (e.column : ℤ) ≤ column).getLast? with
  | none =>
      rw [List.getLast?_eq_none_iff.mp hlast] at hmem
      cases hmem
  | some last => rw [(covers_of_getLast? h hlast).unique hcovered]

theorem exists_covers (h : ∃ e ∈ entries, (e.line : ℤ) = line ∧ (e.column : ℤ) ≤ column) :
    ∃ e, Covers entries line column e := by
  obtain ⟨e, he, hup⟩ := h
  have hsorted := sort_sortedBy entries
  have hmem : e ∈ (sort entries).filter fun e => (e.line : ℤ) = line ∧ (e.column : ℤ) ≤ column :=
    List.mem_filter.mpr ⟨mem_sort.mpr he, decide_eq_true hup⟩
  have hcovers := covers_of_getLast? hsorted.ascending
    (List.getLast?_eq_some_getLast (List.ne_nil_of_mem hmem))
  exact ⟨_, hcovers.of_filter_place_eq hsorted.stable⟩

end Entry

namespace MapIndex
variable (entries : List Entry)

theorem find?_ofEntries_eq_some_iff {line column : ℤ} {e : Entry} :
    (ofEntries entries).find? line column = some e ↔
      Entry.Covers entries line column e ∧ e.source.isSome := by
  have hsorted := Entry.sort_sortedBy entries
  have hfind : (ofEntries entries).find? line column = _ := find?_eq_getLast? hsorted.ascending _ _
  rw [hfind, Option.filter_eq_some_iff]
  refine and_congr_left fun _ => (Entry.getLast?_eq_some_iff_covers hsorted.ascending).trans ?_
  exact ⟨fun h => h.of_filter_place_eq hsorted.stable,
    fun h => h.of_filter_place_eq fun k => (hsorted.stable k).symm⟩

theorem find?_ofEntries_eq_none_iff {line column : ℤ} :
    (ofEntries entries).find? line column = none ↔
      (∀ e ∈ entries, ¬((e.line : ℤ) = line ∧ (e.column : ℤ) ≤ column)) ∨
        ∃ e, Entry.Covers entries line column e ∧ e.source = none := by
  rw [Option.eq_none_iff_forall_ne_some]
  simp only [ne_eq, find?_ofEntries_eq_some_iff]
  constructor
  · intro hnone
    by_cases hup : ∃ e ∈ entries, (e.line : ℤ) = line ∧ (e.column : ℤ) ≤ column
    · obtain ⟨e, he⟩ := Entry.exists_covers hup
      have hsource : ¬e.source.isSome := fun hsome => hnone e ⟨he, hsome⟩
      exact Or.inr ⟨e, he, Option.not_isSome_iff_eq_none.mp hsource⟩
    · exact Or.inl fun e he hpos => hup ⟨e, he, hpos⟩
  · rintro (hbeyond | ⟨e, he, hnone⟩) other ⟨hother, hsome⟩
    · exact hbeyond other hother.mem ⟨hother.on_line, hother.not_beyond⟩
    · rw [← he.unique hother, hnone] at hsome
      cases hsome

theorem find?_ofEntries_congr {others : List Entry} {line column : ℤ}
    (h : ∀ e, Entry.Covers entries line column e ↔ Entry.Covers others line column e) :
    (ofEntries entries).find? line column = (ofEntries others).find? line column := by
  ext e
  rw [find?_ofEntries_eq_some_iff, find?_ofEntries_eq_some_iff, h]

/-- **What is found for a position.**  Of entries in any order it is the one that covers the position,
unless this one has no source; nothing is found when there is no entry up to the position on its line
either.  Entries that are reordered without a change at any one place, and entries that are put on
other lines or taken off them, find the same. -/
theorem find?_covering :
    (∀ line column e, (ofEntries entries).find? line column = some e ↔
      Entry.Covers entries line column e ∧ e.source.isSome) ∧
    (∀ line column, (ofEntries entries).find? line column = none ↔
      (∀ e ∈ entries, ¬((e.line : ℤ) = line ∧ (e.column : ℤ) ≤ column)) ∨
        ∃ e, Entry.Covers entries line column e ∧ e.source = none) ∧
    (∀ others : List Entry,
      (∀ k, entries.filter (fun e => e.place = k) = others.filter fun e => e.place = k) →
      ∀ line column, (ofEntries entries).find? line column = (ofEntries others).find? line column) ∧
    ∀ (others : List Entry) (line : ℤ),
      (entries.filter fun e => (e.line : ℤ) = line) = others.filter (fun e => (e.line : ℤ) = line) →
      ∀ column, (ofEntries entries).find? line column = (ofEntries others).find? line column := by
  refine ⟨fun _ _ _ => find?_ofEntries_eq_some_iff entries,
    fun _ _ => find?_ofEntries_eq_none_iff entries, fun others hsame line column => ?_,
    fun others line hsame column => ?_⟩
  · exact find?_ofEntries_congr entries fun e => ⟨fun h => h.of_filter_place_eq hsame,
      fun h => h.of_filter_place_eq fun k => (hsame k).symm⟩
  · refine find?_ofEntries_congr entries fun e => ?_
    rw [← Entry.covers_filter_line, hsame, Entry.covers_filter_line]

/-- Two entries at one place with one between them on another line, and behind their place one
without a source, given first. -/
def tiedEntries : List Entry :=
  [⟨1, 4, none, none, none, none, Nat.one_pos⟩,
    ⟨1, 2, some "s", some 1, some 0, some "f", Nat.one_pos⟩,
    ⟨2, 0, some "t", some 7, some 0, none, Nat.two_pos⟩,
    ⟨1, 2, some "s", some 2, some 0, none, Nat.one_pos⟩]

theorem find?_covering_tied :
    (ofEntries tiedEntries).find? 1 3 =
        some ⟨1, 2, some "s", some 2, some 0, none, Nat.one_pos⟩ ∧
      (ofEntries tiedEntries).find? 1 9 = none ∧ (ofEntries tiedEntries).find? 2 (-1) = none ∧
      (∀ line column, (ofEntries tiedEntries).find? line column =
        (ofEntries (Entry.sort tiedEntries)).find? line column) ∧
      ∀ column, (ofEntries tiedEntries).find? 1 column =
        (ofEntries (tiedEntries.filter fun e => (e.line : ℤ) = 1)).find? 1 column := by
  obtain ⟨hsome, hnone, hreordered, hline⟩ := find?_covering tiedEntries
  refine ⟨(hsome _ _ _).mpr ⟨⟨rfl, by decide, by decide, by decide⟩, rfl⟩,
    (hnone _ _).mpr (Or.inr ⟨⟨1, 4, none, none, none, none, Nat.one_pos⟩,
      ⟨rfl, by decide, by decide, by decide⟩, rfl⟩),
    (hnone _ _).mpr (Or.inl (by decide)),
    hreordered _ fun k => ((Entry.sort_sortedBy tiedEntries).stable k).symm, hline _ 1 ?_⟩
  decide

end MapIndex

end TracedText
