import Mathlib.Data.List.Basic
import Mathlib.Data.List.Forall2

/-! # Outcomes

When a computation that may fail succeeds, its parts did: the theorems here take such a computation
apart, and `mapM_eq_ok` does it for one that runs over a list. -/

namespace TracedText

variable {ε ε' α β : Type}

theorem error_ne_ok {e : ε} {a : α} : (.error e : Except ε α) ≠ .ok a := nofun

theorem bind_eq_ok {x : Except ε α} {f : α → Except ε β} {b : β} :
    (x >>= f) = .ok b ↔ ∃ a, x = .ok a ∧ f a = .ok b := by
  cases x with
  | error e => exact ⟨nofun, nofun⟩
  | ok a =>
      constructor
      · exact fun h => ⟨a, rfl, h⟩
      · rintro ⟨a', h, hf⟩
        cases h
        exact hf

theorem bind_eq_error {x : Except ε α} {f : α → Except ε β} {e : ε} :
    (x >>= f) = .error e ↔ x = .error e ∨ ∃ a, x = .ok a ∧ f a = .error e := by
  cases x with
  | error e' =>
      constructor
      · exact fun h => Or.inl (congrArg Except.error (Except.error.inj h))
      · rintro (h | ⟨a, h, _⟩)
        · exact congrArg Except.error (Except.error.inj h)
        · cases h
  | ok a =>
      constructor
      · exact fun h => Or.inr ⟨a, rfl, h⟩
      · rintro (h | ⟨a', h, hf⟩)
        · cases h
        · cases h
          exact hf

theorem map_eq_ok {x : Except ε α} {f : α → β} {b : β} :
    x.map f = .ok b ↔ ∃ a, x = .ok a ∧ f a = b := by
  cases x with
  | error e => exact ⟨nofun, nofun⟩
  | ok a =>
      constructor
      · exact fun h => ⟨a, rfl, Except.ok.inj h⟩
      · rintro ⟨a', h, hf⟩
        cases h
        exact congrArg Except.ok hf

theorem map_eq_error {x : Except ε α} {f : α → β} {e : ε} : x.map f = .error e ↔ x = .error e := by
  cases x with
  | error e' => exact ⟨fun h => congrArg Except.error (Except.error.inj h), fun h => by rw [h]; rfl⟩
  | ok a => exact ⟨nofun, nofun⟩

@[simp] theorem mapError_eq_ok {x : Except ε α} {f : ε → ε'} {a : α} :
    x.mapError f = .ok a ↔ x = .ok a := by
  cases x with
  | error e => exact ⟨nofun, nofun⟩
  | ok a' => exact ⟨fun h => congrArg Except.ok (Except.ok.inj h), fun h => by rw [h]; rfl⟩

theorem mapError_eq_error {ε ε' α : Type} {x : Except ε α} {f : ε → ε'} {e : ε'} :
    x.mapError f = .error e ↔ ∃ e', x = .error e' ∧ f e' = e := by
  cases x with
  | error e' => exact ⟨fun h => ⟨e', rfl, Except.error.inj h⟩, by rintro ⟨_, ⟨⟩, rfl⟩; rfl⟩
  | ok a => exact ⟨nofun, nofun⟩

theorem mapM_eq_ok {f : α → Except ε β} {as : List α} {bs : List β} :
    as.mapM f = .ok bs ↔ List.Forall₂ (fun a b => f a = .ok b) as bs := by
  induction as generalizing bs with
  | nil =>
      rw [List.mapM_nil, List.forall₂_nil_left_iff]
      exact ⟨fun h => (Except.ok.inj h).symm, fun h => congrArg Except.ok h.symm⟩
  | cons a rest ih =>
      rw [List.mapM_cons, List.forall₂_cons_left_iff, bind_eq_ok]
      constructor
      · rintro ⟨b, hb, h⟩
        obtain ⟨others, ho, h⟩ := bind_eq_ok.mp h
        exact ⟨b, others, hb, ih.mp ho, (Except.ok.inj h).symm⟩
      · rintro ⟨b, others, hb, ho, rfl⟩
        exact ⟨b, hb, bind_eq_ok.mpr ⟨others, ih.mpr ho, rfl⟩⟩

theorem exists_of_mapM_eq_ok {f : α → Except ε β} {as : List α} {bs : List β}
    (h : as.mapM f = .ok bs) {a : α} (ha : a ∈ as) : ∃ b, f a = .ok b := by
  rw [mapM_eq_ok] at h
  induction h with
  | nil => cases ha
  | cons hfirst _ ih =>
      rcases List.mem_cons.mp ha with rfl | ha
      · exact ⟨_, hfirst⟩
      · exact ih ha

theorem exists_of_mapM_eq_error {f : α → Except ε β} {as : List α} {e : ε}
    (h : as.mapM f = .error e) : ∃ a ∈ as, f a = .error e := by
  induction as with
  | nil => cases h
  | cons a rest ih =>
      rw [List.mapM_cons] at h
      rcases bind_eq_error.mp h with hfirst | ⟨b, _, h⟩
      · exact ⟨a, List.mem_cons_self, hfirst⟩
      · rcases bind_eq_error.mp h with hrest | ⟨others, _, h⟩
        · obtain ⟨a', hmem, ha'⟩ := ih hrest
          exact ⟨a', List.mem_cons_of_mem a hmem, ha'⟩
        · cases h

/-- A computation over a list fails as it does for the first of the values that it fails for. -/
theorem mapM_of_find? {f : α → Except ε β} {bad : α → Bool} {as : List α} {a : α} {e : ε}
    (hgood : ∀ b, bad b = false → ∃ value, f b = .ok value) (hfind : as.find? bad = some a)
    (hbad : f a = .error e) : as.mapM f = .error e := by
  induction as with
  | nil => cases hfind
  | cons first rest ih =>
      rw [List.mapM_cons, bind_eq_error]
      rw [List.find?_cons] at hfind
      cases hfirst : bad first with
      | true =>
          rw [hfirst] at hfind
          obtain rfl := Option.some.inj hfind
          exact Or.inl hbad
      | false =>
          rw [hfirst] at hfind
          obtain ⟨value, hvalue⟩ := hgood first hfirst
          exact Or.inr ⟨value, hvalue, bind_eq_error.mpr (Or.inl (ih hfind))⟩

theorem mapM_eq_ok_map {f : α → Except ε β} {property : α → Prop} {g : α → β}
    (h : ∀ a b, f a = .ok b ↔ property a ∧ b = g a) {as : List α} {bs : List β} :
    as.mapM f = .ok bs ↔ (∀ a ∈ as, property a) ∧ bs = as.map g := by
  rw [mapM_eq_ok]
  induction as generalizing bs with
  | nil => simp
  | cons a rest ih =>
      rw [List.forall₂_cons_left_iff, List.forall_mem_cons, List.map_cons]
      constructor
      · rintro ⟨b, others, hb, hothers, rfl⟩
        obtain ⟨ha, rfl⟩ := (h a b).mp hb
        obtain ⟨hrest, rfl⟩ := ih.mp hothers
        exact ⟨⟨ha, hrest⟩, rfl⟩
      · rintro ⟨⟨ha, hrest⟩, rfl⟩
        exact ⟨_, _, (h a _).mpr ⟨ha, rfl⟩, ih.mpr ⟨hrest, rfl⟩, rfl⟩

theorem mapM_ok_map {f : α → Except ε β} {g : α → β} {as : List α}
    (h : ∀ a ∈ as, f a = .ok (g a)) : as.mapM f = .ok (as.map g) := by
  rw [mapM_eq_ok, List.forall₂_map_right_iff]
  exact List.forall₂_same.mpr h

end TracedText
