import Mathlib
import TracedText.Proofs.Edits

/-! # Points follow their characters

Every character of a text is given an identity, its offset, and edits that insert plain text are
replayed on the characters with their identities (`Edit.replay`).  A point stays with the character
it sits on and is lost when that character is deleted; one at the end of the text stays at the end.
`Point.follow` says this of one point, `tracks_edit` shows that an edit keeps it true of all points,
and `edits_follow` is the statement for any run of edits. -/

namespace TracedText

/-- An edit that inserts nothing but text. -/
inductive Edit where
  | splice (offset count : ℤ) (t : Text)
  | insert (offset : ℤ) (t : Text)
  | delete (offset count : ℤ)
  | append (t : Text)
deriving DecidableEq, Repr

namespace Buffer
variable (b : Buffer)

/-- The buffer behind an edit. -/
def edit : Edit → Except SpliceError Buffer
  | .splice offset count t => b.splice offset count (.text t)
  | .insert offset t => b.insert offset (.text t)
  | .delete offset count => (b.delete offset count).mapError .range
  | .append t => b.append (.text t)

/-- The buffer behind a run of edits, all of which have to succeed. -/
def edits (b : Buffer) : List Edit → Except SpliceError Buffer
  | [] => .ok b
  | e :: rest => do (← b.edit e).edits rest

end Buffer

/-! ### Characters with identities -/

/-- Characters, each with its identity; those that are not of the initial text have none. -/
abbrev Marked := List (Char × Option ℕ)

/-- The characters of the initial text, each with its offset as identity. -/
def Marked.initial (t : Text) : Marked := t.zipIdx.map fun c => (c.1, some c.2)

/-- The characters from `start` up to `stop` give way to those of a text. -/
def Marked.replaced (m : Marked) (start stop : ℕ) (t : Text) : Marked :=
  m.take start ++ t.map (·, none) ++ m.drop stop

/-- What an edit does to the characters. -/
def Edit.replay (m : Marked) : Edit → Marked
  | .splice offset count t => m.replaced offset.toNat (offset + count).toNat t
  | .insert offset t => m.replaced offset.toNat offset.toNat t
  | .delete offset count => m.replaced offset.toNat (offset + count).toNat []
  | .append t => m.replaced m.length m.length t

/-- The place of the character with an identity, if it is still there. -/
def Marked.place? (m : Marked) (identity : ℕ) : Option ℕ :=
  m.findIdx? fun c => c.2 == some identity

/-- Where a point of the initial text has gone: with the end of the text if it was there, and else
with its character. -/
def Point.follow (length : ℕ) (m : Marked) (p : Point) : Option Point :=
  if p.offset = length then some { p with offset := m.length }
  else (m.place? p.offset.toNat).map fun place : ℕ => { p with offset := place }

/-- No two characters share an identity. -/
def Marked.Distinct (m : Marked) : Prop :=
  ∀ identity, m.countP (fun c => c.2 == some identity) ≤ 1

namespace Marked

theorem initial_text (t : Text) : (initial t).map Prod.fst = t := by
  simp [initial, Function.comp_def]

theorem initial_length (t : Text) : (initial t).length = t.length := by
  simp [initial]

theorem initial_distinct (t : Text) : (initial t).Distinct := by
  intro identity
  have hnodup : (t.zipIdx.map Prod.snd).Nodup := by
    rw [List.zipIdx_map_snd]
    exact List.nodup_range'
  have hcount := List.nodup_iff_count_le_one.mp hnodup identity
  rw [List.count, List.countP_map] at hcount
  rw [initial, List.countP_map]
  refine le_trans (le_of_eq (List.countP_congr ?_)) hcount
  intro c _
  simp

theorem initial_place? {t : Text} {i : ℕ} (h : i < t.length) : (initial t).place? i = some i := by
  rw [place?, List.findIdx?_eq_some_iff_getElem]
  refine ⟨by rwa [initial_length], ?_, ?_⟩
  · simp [initial]
  · intro j hj
    simp [initial]
    omega

end Marked

/-! ### One edit -/

/-- Where the only value of a kind is found after a part of the list was replaced by values of other
kinds. -/
theorem findIdx?_replaced {α : Type} {kind : α → Bool} {l new : List α} {start stop : ℕ}
    (h : start ≤ stop) (hstop : stop ≤ l.length) (hone : l.countP kind ≤ 1)
    (hnew : ∀ a ∈ new, kind a = false) :
    (l.take start ++ new ++ l.drop stop).findIdx? kind =
      (l.findIdx? kind).bind fun place =>
        if place < start then some place
        else if place < stop then none else some (place - stop + (start + new.length)) := by
  have hcut : l = l.take start ++ ((l.take stop).drop start ++ l.drop stop) := by
    have hfront : l.take start = (l.take stop).take start := by
      rw [List.take_take, min_eq_left h]
    rw [hfront, ← List.append_assoc, List.take_append_drop, List.take_append_drop]
  have hnone : new.findIdx? kind = none := List.findIdx?_eq_none_iff.mpr hnew
  have hfrontlen : (l.take start).length = start := by rw [List.length_take]; omega
  have hmiddlelen : ((l.take stop).drop start).length = stop - start := by
    rw [List.length_drop, List.length_take]; omega
  generalize l.take start = front at *
  generalize (l.take stop).drop start = middle at *
  generalize l.drop stop = rear at *
  subst hcut
  rw [List.countP_append, List.countP_append] at hone
  have hzero {part : List α} (hp : part.countP kind = 0) : part.findIdx? kind = none := by
    rw [List.findIdx?_eq_none_iff]
    intro a ha
    simpa using List.countP_eq_zero.mp hp a ha
  have hpos {part : List α} {place : ℕ} (hp : part.findIdx? kind = some place) :
      0 < part.countP kind ∧ place < part.length := by
    obtain ⟨hlt, hkind, _⟩ := List.findIdx?_eq_some_iff_getElem.mp hp
    exact ⟨List.countP_pos_iff.mpr ⟨_, List.getElem_mem hlt, hkind⟩, hlt⟩
  simp only [List.findIdx?_append, hnone, List.length_append, hfrontlen,
    hmiddlelen]
  cases hf : front.findIdx? kind with
  | some place =>
      have := (hpos hf).2
      simp only [Option.some_or, Option.bind_some]
      rw [if_pos (by omega)]
  | none =>
      cases hm : middle.findIdx? kind with
      | some place =>
          obtain ⟨hcount, hlt⟩ := hpos hm
          have hr : rear.findIdx? kind = none := hzero (by omega)
          simp only [hr, Option.map_none, Option.none_or, Option.map_some, Option.some_or,
            Option.bind_some]
          rw [if_neg (by omega), if_pos (by omega)]
      | none =>
          cases hr : rear.findIdx? kind with
          | none => rfl
          | some place =>
              simp only [Option.map_none, Option.none_or, Option.map_some, Option.bind_some]
              rw [if_neg (by omega), if_neg (by omega)]
              congr 1
              omega

namespace Marked
variable {m : Marked} {start stop : ℕ} {t : Text}

theorem replaced_length (h : start ≤ stop) (hstop : stop ≤ m.length) :
    (m.replaced start stop t).length = start + t.length + (m.length - stop) := by
  simp only [replaced, List.length_append, List.length_take, List.length_map, List.length_drop]
  omega

theorem replaced_text :
    (m.replaced start stop t).map Prod.fst =
      (m.map Prod.fst).take start ++ t ++ (m.map Prod.fst).drop stop := by
  simp [replaced, Function.comp_def, List.map_take, List.map_drop]

theorem Distinct.replaced (hm : m.Distinct) (h : start ≤ stop) :
    (m.replaced start stop t).Distinct := by
  intro identity
  have hnew :
      (t.map fun c => (c, (none : Option ℕ))).countP (fun c => c.2 == some identity) = 0 := by
    rw [List.countP_eq_zero]
    intro c hc
    obtain ⟨d, _, rfl⟩ := List.mem_map.mp hc
    simp
  have hsub : (m.take start ++ m.drop stop).Sublist m := by
    conv => rhs; rw [← List.take_append_drop start m]
    exact List.Sublist.append_left (List.drop_sublist_drop_left m h) _
  have hcount := hsub.countP_le (p := fun c => c.2 == some identity)
  have := hm identity
  rw [List.countP_append] at hcount
  rw [Marked.replaced, List.countP_append, List.countP_append, hnew]
  omega

theorem place?_replaced (hm : m.Distinct) (h : start ≤ stop) (hstop : stop ≤ m.length)
    (identity : ℕ) :
    (m.replaced start stop t).place? identity =
      (m.place? identity).bind fun place =>
        if place < start then some place
        else if place < stop then none else some (place - stop + (start + t.length)) := by
  have hnew : ∀ c ∈ t.map fun c => (c, (none : Option ℕ)), (c.2 == some identity) = false := by
    intro c hc
    obtain ⟨d, _, rfl⟩ := List.mem_map.mp hc
    rfl
  have hfound := findIdx?_replaced h hstop (hm identity) hnew
  rw [List.length_map] at hfound
  exact hfound

end Marked

namespace Point

/-- Where a point goes when the text from `start` up to `stop` gives way to one of a length. -/
def moved (start stop length : ℕ) (p : Point) : Option Point :=
  if p.offset < (start : ℤ) then some p
  else if p.offset < (stop : ℤ) then none
  else some (p.shift (length - (stop - start : ℕ)))

/-- Following the characters through a replacement is following them and then moving. -/
theorem follow_replaced {m : Marked} (hm : m.Distinct) {start stop : ℕ} (h : start ≤ stop)
    (hstop : stop ≤ m.length) (t : Text) (length : ℕ) (p : Point) :
    p.follow length (m.replaced start stop t) =
      (p.follow length m).bind (moved start stop t.length) := by
  unfold follow
  by_cases hend : p.offset = length
  · rw [if_pos hend, if_pos hend, Marked.replaced_length h hstop, Option.bind_some, moved,
      if_neg (by simp; omega), if_neg (by simp; omega)]
    simp only [shift, Option.some.injEq, Point.mk.injEq, and_true]
    omega
  · rw [if_neg hend, if_neg hend, Marked.place?_replaced hm h hstop]
    cases hplace : m.place? p.offset.toNat with
    | none => rfl
    | some place =>
        have hfront : (place : ℤ) < start ↔ place < start := Int.ofNat_lt
        have hcut : (place : ℤ) < stop ↔ place < stop := Int.ofNat_lt
        simp only [Option.bind_some, Option.map_some, moved, hfront, hcut]
        split_ifs
        · rfl
        · rfl
        · simp only [Option.map_some, shift, Option.some.injEq, Point.mk.injEq, and_true]
          omega

end Point

namespace Buffer
variable {b c : Buffer}

theorem replaced_text_points (hb : b.Consistent) {start stop : ℕ} (h : start ≤ stop) (t : Text) :
    (b.replaced start stop (ofText t)).points =
      b.points.filterMap (Point.moved start stop t.length) := by
  have hord := hb.ordered
  rw [replaced_points hb (ofText_consistent t) h]
  conv => rhs; rw [← filter_append_filter_of_parted (Point.parted_before hord (start : ℤ))]
  rw [List.filterMap_append, List.filterMap_filter, List.filterMap_filter]
  simp only [ofText, List.map_nil, List.append_nil]
  congr 1
  · rw [← List.filterMap_eq_filter]
    apply List.filterMap_congr
    intro p _
    by_cases hp : p.offset < (start : ℤ) <;> simp [hp, Point.moved, Option.guard]
  · rw [← List.filterMap_eq_map, List.filterMap_filter]
    apply List.filterMap_congr
    intro p _
    by_cases hstop : (stop : ℤ) ≤ p.offset
    · have hstart : ¬p.offset < (start : ℤ) := by omega
      simp [hstop, hstart, Point.moved]
    · have hcut : p.offset < (stop : ℤ) := by omega
      simp [hstop, hcut, Point.moved]

/-- An edit that succeeds replaces a part of the text, and does the same to characters with
identities. -/
theorem edit_eq_ok {e : Edit} (h : b.edit e = .ok c) {m : Marked} (hm : m.length = b.text.length) :
    ∃ start stop t, start ≤ stop ∧ stop ≤ b.text.length ∧
      c = b.replaced start stop (ofText t) ∧ e.replay m = m.replaced start stop t := by
  have hsplice {offset count : ℤ} {t : Text} (h : b.splice offset count (.text t) = .ok c) :
      (0 ≤ offset ∧ 0 ≤ count ∧ offset + count ≤ b.text.length) ∧
        c = b.replaced offset.toNat (offset + count).toNat (ofText t) := by
    obtain ⟨inserted, hi, hreplace⟩ := splice_eq_ok.mp h
    cases hi
    exact replace_eq_ok.mp hreplace
  cases e with
  | splice offset count t =>
      obtain ⟨hspan, rfl⟩ := hsplice h
      exact ⟨offset.toNat, (offset + count).toNat, t, by omega, by omega, rfl, rfl⟩
  | insert offset t =>
      obtain ⟨hspan, rfl⟩ := hsplice h
      refine ⟨offset.toNat, offset.toNat, t, le_refl _, by omega, ?_, rfl⟩
      rw [Int.add_zero]
  | delete offset count =>
      obtain ⟨hspan, rfl⟩ := replace_eq_ok.mp (mapError_eq_ok.mp h)
      exact ⟨offset.toNat, (offset + count).toNat, [], by omega, by omega, rfl, rfl⟩
  | append t =>
      obtain ⟨hspan, rfl⟩ := hsplice h
      refine ⟨b.text.length, b.text.length, t, le_refl _, le_refl _, ?_, ?_⟩
      · rw [Int.add_zero, Int.toNat_natCast]
      · rw [Edit.replay, hm]

/-! ### Runs of edits -/

/-- The characters with identities tell the text and the points of a buffer that has come out of an
initial one by edits. -/
structure Tracks (initial : Buffer) (m : Marked) (b : Buffer) : Prop where
  consistent : b.Consistent
  distinct : m.Distinct
  text : b.text = m.map Prod.fst
  points : b.points = initial.points.filterMap (Point.follow initial.text.length m)

theorem tracks_initial (hb : b.Consistent) : Tracks b (.initial b.text) b := by
  refine ⟨hb, Marked.initial_distinct b.text, (Marked.initial_text b.text).symm, ?_⟩
  have hsame : ∀ p ∈ b.points, p.follow b.text.length (.initial b.text) = some p := by
    intro p hp
    obtain ⟨hnonneg, hle⟩ := hb.inside p hp
    unfold Point.follow
    by_cases hend : p.offset = b.text.length
    · rw [if_pos hend, Marked.initial_length, ← hend]
    · rw [if_neg hend, Marked.initial_place? (by omega), Option.map_some,
        Int.toNat_of_nonneg hnonneg]
  rw [List.filterMap_congr hsame, List.filterMap_some]

/-- **One edit keeps track.** -/
theorem tracks_edit {initial : Buffer} {m : Marked} (hm : Tracks initial m b) {e : Edit}
    (h : b.edit e = .ok c) : Tracks initial (e.replay m) c := by
  have hlen : m.length = b.text.length := by rw [hm.text, List.length_map]
  obtain ⟨start, stop, t, hle, hstop, rfl, hreplay⟩ := edit_eq_ok h hlen
  rw [hreplay]
  refine ⟨?_, hm.distinct.replaced hle, ?_, ?_⟩
  · exact replaced_consistent hm.consistent (ofText_consistent t) hle hstop
  · rw [Marked.replaced_text, ← hm.text]
    rfl
  · rw [replaced_text_points hm.consistent hle, hm.points, List.filterMap_filterMap]
    apply List.filterMap_congr
    intro p _
    exact (Point.follow_replaced hm.distinct hle (by omega) t initial.text.length p).symm

theorem tracks_edits {initial : Buffer} {m : Marked} {es : List Edit} (hm : Tracks initial m b)
    (h : b.edits es = .ok c) : Tracks initial (es.foldl Edit.replay m) c := by
  induction es generalizing b m with
  | nil =>
      cases h
      exact hm
  | cons e rest ih =>
      obtain ⟨next, he, hrest⟩ := bind_eq_ok.mp h
      exact ih (tracks_edit hm he) hrest

/-- **Annotations follow their characters.** Behind a run of edits the points are the initial ones,
in their order, without those whose character was deleted: each at the place of its character now,
or at the end of the text if it was there. -/
theorem edits_follow (hb : b.Consistent) {es : List Edit} (h : b.edits es = .ok c) :
    c.text = (es.foldl Edit.replay (.initial b.text)).map Prod.fst ∧
      c.points = b.points.filterMap
        (Point.follow b.text.length (es.foldl Edit.replay (.initial b.text))) :=
  ⟨(tracks_edits (tracks_initial hb) h).text, (tracks_edits (tracks_initial hb) h).points⟩

/-- Three letters with points on the first and the second and at the end. -/
def letters : Buffer :=
  ⟨['a', 'b', 'c'], [⟨0, some "s", some 1, some 0, ""⟩, ⟨1, some "s", some 1, some 4, "n"⟩,
    ⟨3, none, none, none, ""⟩]⟩

theorem letters_consistent : letters.Consistent := ⟨by decide, by decide⟩

theorem letters_edits :
    letters.edits [.insert 1 ['x'], .delete 0 1, .append ['z']] =
      .ok ⟨['x', 'b', 'c', 'z'],
        [⟨1, some "s", some 1, some 4, "n"⟩, ⟨4, none, none, none, ""⟩]⟩ := by
  cbv

theorem edits_follow_letters :
    letters.Consistent ∧
      letters.edits [.insert 1 ['x'], .delete 0 1, .append ['z']] =
        .ok ⟨['x', 'b', 'c', 'z'],
          [⟨1, some "s", some 1, some 4, "n"⟩, ⟨4, none, none, none, ""⟩]⟩ ∧
      [⟨1, some "s", some 1, some 4, "n"⟩, ⟨4, none, none, none, ""⟩] =
        letters.points.filterMap (Point.follow 3
          [('x', none), ('b', some 1), ('c', some 2), ('z', none)]) :=
  ⟨letters_consistent, letters_edits, (edits_follow letters_consistent letters_edits).2⟩

end Buffer

end TracedText
