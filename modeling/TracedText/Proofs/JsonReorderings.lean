import Mathlib.Data.String.Basic
import TracedText.Proofs.JsonDocuments

/-! # Documents and the order of keys

A document does not tell in which order the objects of a value hold their fields.  `Reordered` says
that two values differ in nothing else, and `Ordered` that the keys of every object ascend.  Every
value is a reordering of the one with its keys in order (`reordered_sortKeys`), which is the same for
all reorderings (`sortKeys_eq_iff`).  Hence a value without doubles is read from its document up to
the order of keys, and two values have the same document just when each is a reordering of the other
(`read_written`). -/

namespace TracedText.Json

/-- The second value is the first with the fields of objects in it in another order. -/
inductive Reordered : Json → Json → Prop where
  | refl (value : Json) : Reordered value value
  | trans {first second third : Json} (h : Reordered first second) (h' : Reordered second third) :
      Reordered first third
  /-- The fields of an object. -/
  | fields {fields others : List (String × Json)} (h : fields.Perm others) :
      Reordered (.obj fields) (.obj others)
  /-- An item of a list. -/
  | item (front rear : List Json) {value other : Json} (h : Reordered value other) :
      Reordered (.arr (front ++ value :: rear)) (.arr (front ++ other :: rear))
  /-- The value of a field. -/
  | value (front rear : List (String × Json)) (key : String) {value other : Json}
      (h : Reordered value other) :
      Reordered (.obj (front ++ (key, value) :: rear)) (.obj (front ++ (key, other) :: rear))

/-- The keys of every object in the value ascend, by code points. -/
inductive Ordered : Json → Prop where
  | null : Ordered .null
  | bool (value : Bool) : Ordered (.bool value)
  | int (n : ℤ) : Ordered (.int n)
  | float (x : Binary64) : Ordered (.float x)
  | str (s : String) : Ordered (.str s)
  | arr (items : List Json) (hitems : ∀ item ∈ items, Ordered item) : Ordered (.arr items)
  | obj (fields : List (String × Json)) (hkeys : fields.Pairwise fun a b => a.1 < b.1)
      (hfields : ∀ field ∈ fields, Ordered field.2) : Ordered (.obj fields)

section
variable {dialect : Dialect} {room : ℕ} {value other : Json}

theorem Reordered.symm (h : Reordered value other) : Reordered other value := by
  induction h with
  | refl value => exact .refl value
  | trans _ _ ih ih' => exact .trans ih' ih
  | fields h => exact .fields h.symm
  | item front rear _ ih => exact .item front rear ih
  | value front rear key _ ih => exact .value front rear key ih

/-! ### Keys in order -/

theorem sortFields_pairwise (fields : List (String × Json)) :
    (sortFields fields).Pairwise fun a b => a.1 ≤ b.1 := by
  refine (List.pairwise_mergeSort ?_ ?_ fields).imp of_decide_eq_true
  · intro a b c hab hbc
    exact decide_eq_true (String.le_trans (of_decide_eq_true hab) (of_decide_eq_true hbc))
  · intro a b
    rw [Bool.or_eq_true, decide_eq_true_iff, decide_eq_true_iff]
    exact String.le_total a.1 b.1

theorem sortFields_congr {fields others : List (String × Json)} (h : fields.Perm others)
    (hkeys : (fields.map Prod.fst).Nodup) : sortFields fields = sortFields others := by
  have hperm : (sortFields fields).Perm (sortFields others) :=
    (sortFields_perm fields).trans (h.trans (sortFields_perm others).symm)
  refine hperm.eq_of_pairwise ?_ (sortFields_pairwise fields) (sortFields_pairwise others)
  intro a b ha hb hab hba
  have ha : a ∈ fields := (sortFields_perm fields).mem_iff.mp ha
  have hb : b ∈ fields := h.mem_iff.mpr ((sortFields_perm others).mem_iff.mp hb)
  exact List.inj_on_of_nodup_map hkeys ha hb (String.le_antisymm hab hba)

theorem ordered_sortKeys (h : Fits dialect room value) : Ordered value.sortKeys := by
  induction h with
  | null => exact .null
  | bool value => exact .bool value
  | int n _ _ => exact .int n
  | str s => exact .str s
  | arr items _ ih =>
      rw [sortKeys, sortKeysItems_eq_map]
      refine .arr _ (List.forall_mem_map.mpr ih)
  | obj fields hkeys _ ih =>
      rw [sortKeys, sortKeysFields_eq_map]
      have hperm := sortFields_perm (fields.map fun field => (field.1, field.2.sortKeys))
      have hdistinct : ((sortFields (fields.map fun field =>
          (field.1, field.2.sortKeys))).map Prod.fst).Nodup := by
        rw [(hperm.map Prod.fst).nodup_iff, List.map_map]
        exact hkeys
      refine .obj _ ?_ ?_
      · refine ((sortFields_pairwise _).and (List.pairwise_map.mp hdistinct)).imp ?_
        exact fun {a b} hab => lt_of_le_of_ne hab.1 hab.2
      · intro field hfield
        obtain ⟨given, hgiven, rfl⟩ := List.mem_map.mp (hperm.mem_iff.mp hfield)
        exact ih given hgiven

/-! ### Reorderings -/

theorem reordered_items {f : Json → Json} (front : List Json) {items : List Json}
    (h : ∀ item ∈ items, Reordered item (f item)) :
    Reordered (.arr (front ++ items)) (.arr (front ++ items.map f)) := by
  induction items generalizing front with
  | nil => exact .refl _
  | cons item items ih =>
      have hrest := ih (front ++ [f item]) fun other hother =>
        h other (List.mem_cons_of_mem item hother)
      rw [List.append_assoc, List.append_assoc] at hrest
      exact .trans (.item front items (h item List.mem_cons_self)) hrest

theorem reordered_values {f : Json → Json} (front : List (String × Json))
    {fields : List (String × Json)} (h : ∀ field ∈ fields, Reordered field.2 (f field.2)) :
    Reordered (.obj (front ++ fields))
      (.obj (front ++ fields.map fun field => (field.1, f field.2))) := by
  induction fields generalizing front with
  | nil => exact .refl _
  | cons field fields ih =>
      have hrest := ih (front ++ [(field.1, f field.2)]) fun other hother =>
        h other (List.mem_cons_of_mem field hother)
      rw [List.append_assoc, List.append_assoc] at hrest
      exact .trans (.value front fields field.1 (h field List.mem_cons_self)) hrest

theorem reordered_sortKeys (h : Fits dialect room value) : Reordered value value.sortKeys := by
  induction h with
  | null => exact .refl _
  | bool value => exact .refl _
  | int n _ _ => exact .refl _
  | str s => exact .refl _
  | arr items _ ih =>
      rw [sortKeys, sortKeysItems_eq_map]
      exact reordered_items [] ih
  | obj fields _ _ ih =>
      rw [sortKeys, sortKeysFields_eq_map]
      exact .trans (reordered_values [] ih) (.fields (sortFields_perm _).symm)

theorem fits_list {items : List Json} :
    Fits dialect room (.arr items) ↔
      ∃ inner, room = inner + 1 ∧ ∀ item ∈ items, Fits dialect inner item := by
  constructor
  · intro h
    cases h with
    | arr _ hitems => exact ⟨_, rfl, hitems⟩
  · rintro ⟨inner, rfl, hitems⟩
    exact .arr items hitems

theorem fits_object {fields : List (String × Json)} :
    Fits dialect room (.obj fields) ↔ (fields.map Prod.fst).Nodup ∧
      ∃ inner, room = inner + 1 ∧ ∀ field ∈ fields, Fits dialect inner field.2 := by
  constructor
  · intro h
    cases h with
    | obj _ hkeys hfields => exact ⟨hkeys, _, rfl, hfields⟩
  · rintro ⟨hkeys, inner, rfl, hfields⟩
    exact .obj fields hkeys hfields

/-- Reorderings of a value that is followed are followed, and are the same once their keys are in
order. -/
theorem Reordered.sortKeys_eq (h : Reordered value other) (hfits : Fits dialect room value) :
    Fits dialect room other ∧ value.sortKeys = other.sortKeys := by
  induction h generalizing room with
  | refl value => exact ⟨hfits, rfl⟩
  | trans _ _ ih ih' =>
      obtain ⟨hsecond, heq⟩ := ih hfits
      obtain ⟨hthird, heq'⟩ := ih' hsecond
      exact ⟨hthird, heq.trans heq'⟩
  | fields hperm =>
      obtain ⟨hkeys, inner, rfl, hfields⟩ := fits_object.mp hfits
      refine ⟨.obj _ ((hperm.map Prod.fst).nodup_iff.mp hkeys) ?_, ?_⟩
      · exact fun field hfield => hfields field (hperm.mem_iff.mpr hfield)
      · rw [sortKeys, sortKeys, sortKeysFields_eq_map, sortKeysFields_eq_map,
          sortFields_congr (hperm.map _)]
        rw [List.map_map]
        exact hkeys
  | item front rear _ ih =>
      obtain ⟨inner, rfl, hitems⟩ := fits_list.mp hfits
      rw [List.forall_mem_append, List.forall_mem_cons] at hitems
      obtain ⟨hfront, hvalue, hrear⟩ := hitems
      obtain ⟨hother, heq⟩ := ih hvalue
      refine ⟨.arr _ (List.forall_mem_append.mpr
        ⟨hfront, List.forall_mem_cons.mpr ⟨hother, hrear⟩⟩), ?_⟩
      simp only [sortKeys, sortKeysItems_eq_map, List.map_append, List.map_cons, heq]
  | value front rear key _ ih =>
      obtain ⟨hkeys, inner, rfl, hfields⟩ := fits_object.mp hfits
      rw [List.forall_mem_append, List.forall_mem_cons] at hfields
      obtain ⟨hfront, hvalue, hrear⟩ := hfields
      obtain ⟨hother, heq⟩ := ih hvalue
      refine ⟨.obj _ ?_ (List.forall_mem_append.mpr
        ⟨hfront, List.forall_mem_cons.mpr ⟨hother, hrear⟩⟩), ?_⟩
      · simpa only [List.map_append, List.map_cons] using hkeys
      · simp only [sortKeys, sortKeysFields_eq_map, List.map_append, List.map_cons, heq]

/-- **Values are the same once their keys are in order just when they are reorderings.** -/
theorem sortKeys_eq_iff {room' : ℕ} (hvalue : Fits dialect room value)
    (hother : Fits dialect room' other) :
    value.sortKeys = other.sortKeys ↔ Reordered value other := by
  constructor
  · intro h
    have hback := (reordered_sortKeys hother).symm
    rw [← h] at hback
    exact (reordered_sortKeys hvalue).trans hback
  · exact fun h => (h.sortKeys_eq hvalue).2

end

/-! ### Documents of values without doubles -/

section
variable {dialect : Dialect} {room : ℕ} {value other : Json} (floats floats' : FloatStyle)
  (layout : Layout)

theorem printItems_congr {depth : ℕ} {items : List Json}
    (h : ∀ item ∈ items, print floats layout depth item = print floats' layout depth item) :
    printItems floats layout depth items = printItems floats' layout depth items := by
  induction items with
  | nil => rfl
  | cons item items ih =>
      obtain ⟨hitem, hitems⟩ := List.forall_mem_cons.mp h
      rw [printItems, printItems, hitem, ih hitems]

theorem printFields_congr {depth : ℕ} {fields : List (String × Json)}
    (h : ∀ field ∈ fields, print floats layout depth field.2 = print floats' layout depth field.2) :
    printFields floats layout depth fields = printFields floats' layout depth fields := by
  induction fields with
  | nil => rfl
  | cons field fields ih =>
      obtain ⟨hfield, hfields⟩ := List.forall_mem_cons.mp h
      rw [printFields, printFields, hfield, ih hfields]

theorem print_congr (h : Fits dialect room value) (depth : ℕ) :
    print floats layout depth value = print floats' layout depth value := by
  induction h generalizing depth with
  | null => rfl
  | bool value => rfl
  | int n _ _ => rfl
  | str s => rfl
  | arr items _ ih =>
      rw [print, print, printItems_congr floats floats' layout fun item hitem => ih item hitem _]
  | obj fields _ _ ih =>
      rw [print, print,
        printFields_congr floats floats' layout fun field hfield => ih field hfield _]

/-- Different values are written differently, with whatever room they are nested. -/
theorem print_injective {room' depth : ℕ} (hvalue : Fits dialect room value)
    (hother : Fits dialect room' other)
    (h : print floats layout depth value = print floats layout depth other) : value = other := by
  have hread := reads_print floats layout (hvalue.mono (le_max_left room room')) depth
    _ [] (le_refl _) nofun
  have hread' := reads_print floats layout (hother.mono (le_max_right room room')) depth
    _ [] (le_refl _) nofun
  rw [← h, hread] at hread'
  exact (Prod.mk.inj (Except.ok.inj hread')).1

end

/-- **What is written is read back**, by either dialect from either: a value without doubles, whose
whole numbers have sixty-four bits and whose objects give each key once, as `Fits .strict` says, is
read with nothing changed but the order of its fields, which is that of their keys.  Two such values
have the same document just when one is a reordering of the other. -/
theorem read_written {writer reader : Dialect} (hreader : reader ∈ [Dialect.strict, .lenient])
    (pretty : Bool) {value : Json} (hvalue : Fits .strict reader.readDepth value)
    (hdepth : ∀ most ∈ writer.writeDepth, value.depth ≤ most) :
    ∃ t, write writer pretty value = .ok t ∧
      (∃ found, read reader t.toUtf8 = .ok found ∧ Reordered value found ∧ Ordered found) ∧
      ∀ (other : Dialect) (room : ℕ) (another : Json), Fits .strict room another →
        (∀ most ∈ other.writeDepth, another.depth ≤ most) →
        (write other pretty another = .ok t ↔ Reordered value another) := by
  have hwrite : write writer pretty value = _ := write_of_fits pretty hvalue hdepth
  refine ⟨_, hwrite, ?_, ?_⟩
  · exact ⟨value.sortKeys, read_write (hvalue.of_strict hreader) hwrite,
      reordered_sortKeys hvalue, ordered_sortKeys hvalue⟩
  · intro other room another hanother hotherDepth
    have hfloats := print_congr other.floats writer.floats (.ofPretty pretty) hanother.sortKeys 0
    rw [write_of_fits pretty hanother hotherDepth, hfloats, Except.ok.injEq,
      List.append_left_inj, ← sortKeys_eq_iff hvalue hanother]
    constructor
    · exact fun h => print_injective _ _ hvalue.sortKeys hanother.sortKeys h.symm
    · exact fun h => by rw [h]

/-- Fields out of order, with the least and the greatest of the whole numbers, an empty list, and a
string of characters that are escaped and one that takes two code units. -/
def unordered : List (String × Json) :=
  [("b", .arr [.int (-0x8000000000000000), .int 0xFFFFFFFFFFFFFFFF, .arr []]),
    ("a", .str "\x00\x22𝄞\x5c")]

theorem read_written_unordered :
    Fits .strict Dialect.lenient.readDepth (.obj unordered) ∧
      (∀ most ∈ Dialect.strict.writeDepth, (Json.obj unordered).depth ≤ most) ∧
      ∃ t found, write .strict true (.obj unordered) = .ok t ∧
        read .lenient t.toUtf8 = .ok found ∧ Reordered (.obj unordered) found ∧ Ordered found ∧
        write .lenient true (.obj unordered.reverse) = .ok t := by
  have hlist : Fits .strict 2
      (.arr [.int (-0x8000000000000000), .int 0xFFFFFFFFFFFFFFFF, .arr []]) := by
    refine .arr _ ?_
    simp only [List.forall_mem_cons]
    exact ⟨.int _ (by decide) nofun, .int _ (by decide) nofun, .arr [] nofun, nofun⟩
  have hfields : ∀ field ∈ unordered, Fits .strict 2 field.2 := by
    simp only [unordered, List.forall_mem_cons]
    exact ⟨hlist, .str _, nofun⟩
  have hfits : Fits .strict 3 (.obj unordered) := .obj _ (by decide) hfields
  have hreversed : Fits .strict 3 (.obj unordered.reverse) :=
    .obj _ (by decide) fun field hfield => hfields field (List.mem_reverse.mp hfield)
  have hroom : Fits .strict Dialect.lenient.readDepth (.obj unordered) := hfits.mono (by decide)
  have hdepth : ∀ most ∈ Dialect.strict.writeDepth, (Json.obj unordered).depth ≤ most := by decide
  have hreader : Dialect.lenient ∈ [Dialect.strict, .lenient] := by decide
  obtain ⟨t, hwrite, ⟨found, hread, hreordered, hordered⟩, hsame⟩ :=
    read_written hreader true hroom hdepth
  have hother := (hsame .lenient 3 (.obj unordered.reverse) hreversed nofun).mpr
    (.fields unordered.reverse_perm.symm)
  exact ⟨hroom, hdepth, t, found, hwrite, hread, hreordered, hordered, hother⟩

end TracedText.Json
