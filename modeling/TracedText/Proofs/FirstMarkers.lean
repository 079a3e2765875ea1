import TracedText.Proofs.Loaders

/-! # The first marker of a text

`Marker.FirstIn` says what the first marker of a text is without a search: its opening stands where it
starts and nowhere in front of that, and what it names goes on to the end of the line.  The search finds
this marker and no other (`find?_eq_some_iff`).  When a marker line is put behind a text, the first
marker is that of the line only if the text has none of its own (`find?_markedText`); otherwise it is
the one that the text has, and loading follows it. -/

namespace TracedText

namespace Marker
variable {t rest : Text} {m : Marker}

/-- The marker is the first of the text. -/
structure FirstIn (t : Text) (m : Marker) : Prop where
  opens : opening <+: t.drop m.start
  first : ∀ k < m.start, ¬ opening <+: t.drop k
  stop_le : m.stop ≤ t.length
  spelled : t.slice m.start m.stop = line m.url
  /-- What it names is in one line. -/
  url : ∀ c ∈ m.url.toList, isTerminator c = false
  /-- What it names goes on as long as it can. -/
  ends : ∀ c ∈ (t.drop m.stop).head?, isTerminator c = true

/-! ### The search -/

theorem FirstIn.drop_start (h : m.FirstIn t) : t.drop m.start = line m.url ++ t.drop m.stop := by
  have hle : m.start ≤ m.stop := by
    by_contra hlt
    have hempty : t.slice m.start m.stop = [] := by
      rw [Text.slice_natCast, List.drop_eq_nil_of_le]
      exact (List.length_take_le _ _).trans (by omega)
    rw [h.spelled] at hempty
    exact absurd (List.append_eq_nil_iff.mp hempty).1 (by decide)
  have hsplit := Text.drop_take_append (t := t) hle
  rwa [← Text.slice_natCast, h.spelled, eq_comm] at hsplit

theorem FirstIn.stop_eq (h : m.FirstIn t) : m.stop = m.start + (line m.url).length := by
  have hlength := congrArg List.length h.drop_start
  have hstop := h.stop_le
  have hpos : 0 < (line m.url).length := by
    rw [line, List.length_append]
    exact Nat.add_pos_left (by decide) _
  rw [List.length_append, List.length_drop, List.length_drop] at hlength
  omega

theorem firstIn_of_find? (h : find? t = some m) : m.FirstIn t := by
  have hstop := (find?_bounds h).2
  obtain ⟨start, hstart, rfl⟩ := Option.map_eq_some_iff.mp h
  obtain ⟨hopens, hfirst⟩ := offset?_eq_some_iff.mp hstart
  set behind := t.drop (start + opening.length) with hbehind
  set url := behind.takeWhile fun c => !isTerminator c with hurl
  have hdrop : t.drop start = opening ++ behind := by
    rw [hbehind, ← List.drop_drop]
    exact (List.prefix_iff_eq_append.mp hopens).symm
  have hends : t.drop (start + opening.length + url.length) =
      behind.dropWhile fun c => !isTerminator c := by
    rw [← List.drop_drop, ← hbehind]
    exact (take_drop_of_append List.takeWhile_append_dropWhile rfl).2
  have hspelled : t.slice start (start + opening.length + url.length : ℕ) = opening ++ url := by
    have hwhole : behind = url ++ behind.dropWhile fun c => !isTerminator c :=
      List.takeWhile_append_dropWhile.symm
    rw [Nat.add_assoc, Text.slice_add, hdrop, List.take_length_add_append, hwhole,
      List.take_left]
  refine ⟨hopens, hfirst, hstop, ?_, ?_, ?_⟩
  · rw [line, String.toList_ofList]
    exact hspelled
  · intro c hc
    rw [String.toList_ofList] at hc
    simpa using List.mem_takeWhile_imp hc
  · intro c hc
    rw [hends] at hc
    simpa using head?_dropWhile c hc

theorem FirstIn.find?_eq (h : m.FirstIn t) : find? t = some m := by
  have hdrop : t.drop (m.start + opening.length) = m.url.toList ++ t.drop m.stop := by
    rw [← List.drop_drop, h.drop_start, line, List.append_assoc, List.drop_left]
  have hrun : (t.drop (m.start + opening.length)).takeWhile (fun c => !isTerminator c) =
      m.url.toList := by
    rw [hdrop]
    refine (takeWhile_append (fun c hc => ?_) fun c hc => ?_).1
    · rw [h.url c hc]
      rfl
    · rw [h.ends c hc]
      rfl
  rw [find?, offset?_eq_some_iff.mpr ⟨h.opens, h.first⟩, Option.map_some]
  simp only [hrun, String.ofList_toList]
  rw [Nat.add_assoc, ← List.length_append]
  exact congrArg some (congrArg (Marker.mk m.url m.start) h.stop_eq.symm)

/-- **The search finds the first marker.** -/
theorem find?_eq_some_iff : find? t = some m ↔ m.FirstIn t := ⟨firstIn_of_find?, FirstIn.find?_eq⟩

theorem FirstIn.append_lineFeed (h : m.FirstIn t) (rest : Text) : m.FirstIn (t ++ '\n' :: rest) := by
  have hstop := h.stop_le
  have hstart : m.start ≤ t.length := by
    have := h.stop_eq
    omega
  refine ⟨?_, fun k hk => ?_, ?_, ?_, h.url, ?_⟩
  · rw [List.drop_append_of_le_length hstart]
    exact h.opens.trans (List.prefix_append _ _)
  · rw [List.drop_append_of_le_length (hk.le.trans hstart), ← List.isPrefixOf_iff_prefix,
      isPrefixOf_append_lineFeed lineFeed_notMem_opening, List.isPrefixOf_iff_prefix]
    exact h.first k hk
  · rw [List.length_append]
    omega
  · rw [Text.slice_natCast, List.take_append_of_le_length hstop, ← Text.slice_natCast, h.spelled]
  · rw [List.drop_append_of_le_length hstop]
    cases hbehind : t.drop m.stop with
    | nil => exact fun c hc => Option.some.inj hc ▸ rfl
    | cons c behind => exact fun c' hc' => h.ends c' (by rw [hbehind]; exact hc')

end Marker

/-! ### Marked texts -/

namespace Buffer

/-- **The marker of a text with a marker line behind it.**  A text has a marker exactly when the opening
stands in it, and the search finds the first.  A text without a marker, which is stored with a marker
line, has the marker of this line, and comes back when that is taken out.  A text with a marker keeps
it as its first, and both loaders follow it, whatever the line behind the text names. -/
theorem find?_markedText (b : Buffer) (name : String) :
    (Marker.find? b.text = none ↔ ¬ Marker.opening <:+: b.text) ∧
    (∀ m, Marker.find? b.text = some m ↔ m.FirstIn b.text) ∧
    (¬ Marker.opening <:+: b.text → (∀ c ∈ name.toList, isTerminator c = false) →
      ∃ m, Marker.find? (b.markedText name) = some m ∧ m.url = name ∧
        m.start = b.text.length + 1 ∧
        Marker.strip (b.markedText name) m.start m.stop = .ok b.text) ∧
    (Marker.opening <:+: b.text → ∃ own, Marker.find? b.text = some own ∧
      Marker.find? (b.markedText name) = some own ∧
      ∀ d dialect p, loadText d p = .ok (b.markedText name) →
        load d dialect p = loadMarked d dialect p (b.markedText name) own ∧
        SourceFile.load d dialect p none = (own.entries d dialect p).map fun found =>
          ⟨some p, b.markedText name, some (.ofEntries found.2)⟩) := by
  refine ⟨Marker.find?_eq_none_iff, fun m => Marker.find?_eq_some_iff, ?_, ?_⟩
  · intro htext hname
    exact ⟨_, Marker.find?_stored htext hname, rfl, rfl, Marker.strip_stored b.text _⟩
  · intro htext
    obtain ⟨own, hown⟩ := Option.ne_none_iff_exists'.mp
      (mt Marker.find?_eq_none_iff.mp (not_not.mpr htext))
    have hmarked : Marker.find? (b.markedText name) = some own :=
      ((Marker.firstIn_of_find? hown).append_lineFeed (Marker.line name ++ ['\n'])).find?_eq
    refine ⟨own, hown, hmarked, fun d dialect p hloaded => ⟨?_, ?_⟩⟩
    · exact load_of_find? dialect hloaded hmarked
    · exact SourceFile.load_of_find? dialect hloaded hmarked

/-- A text that ends in the first characters of the opening. -/
def halfOpened : Buffer := .ofText ['a', '/', '/', '#', ' ']

/-- A text that is a marker itself. -/
def ownMarked : Buffer := .ofText (Marker.line "m")

/-- The disk with the second of these texts, and a marker line behind it that names another map. -/
def ownMarkedDisk : Disk :=
  Disk.set (.withDirectory []) ["a"] (.file (ownMarked.markedText "n").toUtf8)

theorem find?_markedText_own :
    (¬ Marker.opening <:+: halfOpened.text ∧ (∀ c ∈ "n".toList, isTerminator c = false) ∧
      ∃ m, Marker.find? (halfOpened.markedText "n") = some m ∧ m.url = "n" ∧ m.start = 6 ∧
        Marker.strip (halfOpened.markedText "n") m.start m.stop = .ok halfOpened.text) ∧
    Marker.opening <:+: ownMarked.text ∧
      loadText ownMarkedDisk ⟨.single, ["a"]⟩ = .ok (ownMarked.markedText "n") ∧
      Marker.find? (ownMarked.markedText "n") = some ⟨"m", 0, 22⟩ ∧
      load ownMarkedDisk .strict ⟨.single, ["a"]⟩ =
        loadMarked ownMarkedDisk .strict ⟨.single, ["a"]⟩ (ownMarked.markedText "n") ⟨"m", 0, 22⟩ ∧
      load ownMarkedDisk .strict ⟨.single, ["a"]⟩ = .error (.missingMap "/m") := by
  have hplain : ¬ Marker.opening <:+: halfOpened.text := by decide
  have hname : ∀ c ∈ "n".toList, isTerminator c = false := by
    intro c hc
    rw [List.mem_singleton.mp hc]
    rfl
  have hopening : Marker.opening <:+: ownMarked.text := ⟨[], ['m'], rfl⟩
  have hloaded : loadText ownMarkedDisk ⟨.single, ["a"]⟩ = .ok (ownMarked.markedText "n") := by
    have hread : ownMarkedDisk.read ⟨.single, ["a"]⟩ = .ok (ownMarked.markedText "n").toUtf8 := rfl
    exact loadText_of_read hread
  have hfound : Marker.find? ownMarked.text = some ⟨"m", 0, 22⟩ := by cbv
  obtain ⟨-, -, hline, -⟩ := find?_markedText halfOpened "n"
  obtain ⟨-, -, -, hown⟩ := find?_markedText ownMarked "n"
  obtain ⟨own, hfind, hmarked, hload⟩ := hown hopening
  obtain rfl := Option.some.inj (hfind.symm.trans hfound)
  have hfollowed := (hload ownMarkedDisk .strict ⟨.single, ["a"]⟩ hloaded).1
  refine ⟨⟨hplain, hname, hline hplain hname⟩, hopening, hloaded, hmarked, hfollowed, ?_⟩
  rw [hfollowed]
  cbv

end Buffer

end TracedText
