import Mathlib.Data.List.Infix
import TracedText.Buffer.Storage
import TracedText.Proofs.Extents
import TracedText.Proofs.Outcomes

/-! # The marker of a stored text

A text without a marker, stored with a marker line behind it, has the marker of this line
(`find?_stored`), and without it the text is what was stored (`strip_stored`).  The marker starts
behind a line feed, which the opening does not hold, so none can start in the text and end in the
line (`offset?_append_lineFeed`).  Any marker that is found stands in its text, so it can be taken
out (`exists_strip`). -/

namespace TracedText.Marker

/-! ### Finding -/

/-- What holds no line feed does not reach over one. -/
theorem isPrefixOf_append_lineFeed {word : Text} (hword : '\n' ∉ word) (s rest : Text) :
    word.isPrefixOf (s ++ '\n' :: rest) = word.isPrefixOf s := by
  induction word generalizing s with
  | nil => rfl
  | cons c word ih =>
      obtain ⟨hc, hword⟩ := List.ne_and_not_mem_of_not_mem_cons hword
      cases s with
      | nil =>
          rw [List.nil_append, List.isPrefixOf_cons_cons, beq_eq_false_iff_ne.mpr (Ne.symm hc),
            Bool.false_and, List.isPrefixOf_cons_nil]
      | cons x s =>
          rw [List.cons_append, List.isPrefixOf_cons_cons, List.isPrefixOf_cons_cons, ih hword]

theorem lineFeed_notMem_opening : '\n' ∉ opening := by decide

theorem offset?_append_lineFeed (s rest : Text) :
    offset? (s ++ '\n' :: rest) = (offset? s).or ((offset? rest).map (· + (s.length + 1))) := by
  have hprefix := isPrefixOf_append_lineFeed lineFeed_notMem_opening
  induction s with
  | nil =>
      have hnone : opening.isPrefixOf ('\n' :: rest) = false := hprefix [] rest
      have hnext : offset? ('\n' :: rest) = (offset? rest).map (· + 1) := by
        rw [offset?, hnone]
        rfl
      exact hnext
  | cons c s ih =>
      have hsame := hprefix (c :: s) rest
      rw [List.cons_append] at hsame
      rw [List.cons_append, offset?, hsame, offset?, ih]
      split
      · rfl
      · rw [Option.map_or, Option.map_map]
        rfl

theorem offset?_eq_none_iff (t : Text) : offset? t = none ↔ ¬ opening <:+: t := by
  induction t with
  | nil => exact ⟨fun _ => by decide, fun _ => rfl⟩
  | cons c rest ih =>
      rw [offset?, List.infix_cons_iff, ← List.isPrefixOf_iff_prefix, not_or, ← ih]
      split
      · simp [*]
      · simp [*]

theorem offset?_opening (rest : Text) : offset? (opening ++ rest) = some 0 := by
  have hprefix : opening.isPrefixOf (opening ++ rest) :=
    List.isPrefixOf_iff_prefix.mpr (List.prefix_append _ _)
  cases h : opening ++ rest with
  | nil => exact absurd (List.append_eq_nil_iff.mp h).1 (by decide)
  | cons c _ => rw [offset?, ← h, if_pos hprefix]

theorem takeWhile_name {name : Text} (hname : ∀ c ∈ name, isTerminator c = false) (rest : Text) :
    (name ++ '\n' :: rest).takeWhile (fun c => !isTerminator c) = name := by
  refine (takeWhile_append (fun c hc => by rw [hname c hc]; rfl) fun c hc => ?_).1
  obtain rfl := Option.some.inj hc
  rfl

/-- **The marker of a stored text is that of the line behind it.** -/
theorem find?_stored {text : Text} (htext : ¬ opening <:+: text) {name : String}
    (hname : ∀ c ∈ name.toList, isTerminator c = false) :
    find? (text ++ '\n' :: (line name ++ ['\n'])) =
      some ⟨name, text.length + 1, text.length + 1 + (line name).length⟩ := by
  have hoffset : offset? (text ++ '\n' :: (line name ++ ['\n'])) = some (text.length + 1) := by
    rw [offset?_append_lineFeed, (offset?_eq_none_iff text).mpr htext, line, List.append_assoc,
      offset?_opening]
    rw [Option.none_or, Option.map_some, Nat.zero_add]
  have hdrop : (text ++ '\n' :: (line name ++ ['\n'])).drop (text.length + 1 + opening.length) =
      name.toList ++ ['\n'] := by
    rw [← List.drop_drop, ← List.drop_drop, List.drop_left, List.drop_one, List.tail_cons, line,
      List.append_assoc, List.drop_left]
  rw [find?, hoffset, Option.map_some, hdrop, takeWhile_name hname]
  simp only [String.ofList_toList, line, List.length_append, Nat.add_assoc]

/-! ### Taking it out -/

/-- **A stored text without its marker is what was stored.** -/
theorem strip_stored (text marker : Text) :
    strip (text ++ '\n' :: (marker ++ ['\n'])) ((text.length + 1 : ℕ) : ℤ)
      ((text.length + 1 + marker.length : ℕ) : ℤ) = .ok text := by
  set stored := text ++ '\n' :: (marker ++ ['\n']) with hstored
  have hlength : stored.length = text.length + 1 + marker.length + 1 := by
    simp [hstored]
    omega
  have hstop : stored.drop (text.length + 1 + marker.length) = ['\n'] := by
    rw [hstored, ← List.drop_drop, ← List.drop_drop, List.drop_left, List.drop_one, List.tail_cons,
      List.drop_left]
  have hfront : stored[text.length]? = some '\n' := by
    rw [← List.head?_drop, hstored, List.drop_left, List.head?_cons]
  have hskip : stored.skipTerminator ((text.length + 1 + marker.length : ℕ) : ℤ) =
      .ok (stored.length : ℤ) := by
    rw [Text.skipTerminator_natCast, hstop, hlength]
    rfl
  have hcut : cutStart stored ((text.length + 1 : ℕ) : ℤ) (stored.length : ℤ) =
      .ok (text.length : ℤ) := by
    have hbefore : (((text.length + 1 : ℕ) : ℤ) - 1) = (text.length : ℤ) := by omega
    rw [cutStart, if_pos (by simp), hbefore, Text.charAt_natCast hfront]
    rfl
  rw [strip, hskip]
  change (do
    let start ← cutStart stored ((text.length + 1 : ℕ) : ℤ) (stored.length : ℤ)
    return stored.sliceTo start ++ stored.sliceFrom (stored.length : ℤ)) = _
  rw [hcut]
  show Except.ok (stored.sliceTo (text.length : ℤ) ++ stored.sliceFrom (stored.length : ℤ)) = _
  rw [Text.sliceTo, Text.sliceFrom, Text.bound_natCast, Text.bound_natCast, min_eq_left (by omega),
    min_self, List.drop_length, List.append_nil, hstored, List.take_left]

/-! ### Any marker -/

theorem offset?_eq_some_iff {t : Text} {start : ℕ} : offset? t = some start ↔
    opening <+: t.drop start ∧ ∀ k < start, ¬ opening <+: t.drop k := by
  induction t generalizing start with
  | nil =>
      have hnone : ¬ opening <+: List.drop start ([] : Text) := by
        rw [List.drop_nil]
        decide
      exact iff_of_false nofun fun h => hnone h.1
  | cons c rest ih =>
      rw [offset?]
      split
      · rename_i hprefix
        have hopening := List.isPrefixOf_iff_prefix.mp hprefix
        constructor
        · intro h
          obtain rfl := Option.some.inj h
          exact ⟨hopening, nofun⟩
        · rintro ⟨-, hfirst⟩
          by_contra hne
          have hpos : 0 < start := Nat.pos_of_ne_zero fun hzero => hne (hzero ▸ rfl)
          exact hfirst 0 hpos hopening
      · rename_i hprefix
        have hopening : ¬ opening <+: c :: rest := fun h =>
          hprefix (List.isPrefixOf_iff_prefix.mpr h)
        cases start with
        | zero => exact iff_of_false (by simp) fun h => hopening h.1
        | succ n =>
            have hmap : (offset? rest).map (· + 1) = some (n + 1) ↔ offset? rest = some n := by
              simp
            rw [hmap, ih, List.drop_succ_cons]
            refine and_congr_right fun _ => ⟨fun hfirst k hk => ?_, fun hfirst k hk => ?_⟩
            · cases k with
              | zero => exact hopening
              | succ k => exact hfirst k (Nat.lt_of_succ_lt_succ hk)
            · exact hfirst (k + 1) (Nat.succ_lt_succ hk)

theorem opening_prefix_drop {t : Text} {start : ℕ} (h : offset? t = some start) :
    opening <+: t.drop start := (offset?_eq_some_iff.mp h).1

theorem find?_bounds {t : Text} {m : Marker} (h : find? t = some m) :
    m.start ≤ m.stop ∧ m.stop ≤ t.length := by
  obtain ⟨start, hstart, rfl⟩ := Option.map_eq_some_iff.mp h
  have hopening := (opening_prefix_drop hstart).length_le
  have hurl : ((t.drop (start + opening.length)).takeWhile fun c => !isTerminator c).length ≤
      (t.drop (start + opening.length)).length := (List.takeWhile_prefix _).length_le
  have hpos : 0 < opening.length := by decide
  rw [List.length_drop] at hopening hurl
  dsimp only
  omega

theorem find?_eq_none_iff {t : Text} : find? t = none ↔ ¬ opening <:+: t := by
  rw [find?, Option.map_eq_none_iff, offset?_eq_none_iff]

theorem exists_charAt {t : Text} {n : ℕ} (h : n < t.length) : ∃ c, t.charAt (n : ℤ) = .ok c :=
  ⟨t[n], Text.charAt_natCast (List.getElem?_eq_getElem h)⟩

theorem exists_cutStart {t : Text} {start : ℕ} (h : start ≤ t.length) (stop : ℤ) :
    ∃ first, cutStart t (start : ℤ) stop = .ok first := by
  unfold cutStart
  split
  · rename_i hcut
    rw [Bool.and_eq_true, decide_eq_true_eq] at hcut
    have hbefore : (start : ℤ) - 1 = ((start - 1 : ℕ) : ℤ) := by omega
    obtain ⟨c, hc⟩ := exists_charAt (t := t) (n := start - 1) (by omega)
    rw [hbefore]
    exact ⟨_, bind_eq_ok.mpr ⟨c, hc, rfl⟩⟩
  · exact ⟨_, rfl⟩

theorem exists_strip {t : Text} {m : Marker} (h : find? t = some m) :
    ∃ body, strip t m.start m.stop = .ok body := by
  obtain ⟨hle, hstop⟩ := find?_bounds h
  have hnext := Text.skipTerminator_natCast t m.stop
  obtain ⟨first, hfirst⟩ := exists_cutStart (hle.trans hstop) _
  exact ⟨_, bind_eq_ok.mpr ⟨_, hnext, bind_eq_ok.mpr ⟨first, hfirst, rfl⟩⟩⟩

end TracedText.Marker
