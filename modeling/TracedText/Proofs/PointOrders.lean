import TracedText.Proofs.Storage
import TracedText.Session.Run

/-! # Points in any order

A buffer may hold its points in any order.  The check for this compares neighbours only, and finds
every descent all the same (`Point.inOrder_eq_false_iff`).  The map of the buffer is that of the
entries of the points as they are held: places in a map are in the order of the offsets, so to put
the points in order first leaves the order of the entries as it is, ties included.  What a map is
made of is therefore the same for all rearrangements (`Session.mapped_any_order`). -/

namespace TracedText

namespace Point
variable {points others : List Point}

/-- Some point has a smaller offset than one in front of it. -/
def Descends (points : List Point) : Prop :=
  ∃ (i j : ℕ) (hi : i < points.length) (hj : j < points.length),
    i < j ∧ points[j].offset < points[i].offset

/-- Two lists hold the same points, and points of one offset in the same order. -/
def Rearranged (points others : List Point) : Prop :=
  ∀ offset, others.filter (fun p => p.offset = offset) = points.filter fun p => p.offset = offset

/-- Points are out of order for the check of neighbours when any two are. -/
theorem inOrder_eq_false_iff : inOrder points = false ↔ Descends points := by
  rw [← Bool.not_eq_true, inOrder_iff, List.pairwise_iff_getElem]
  simp only [Descends, not_forall, not_le, exists_prop]

theorem rearranged_iff : Rearranged points others ↔ sort others = sort points := by
  have hstable (offset : ℤ) := (sort_sortedBy points).stable offset
  have hothers (offset : ℤ) := (sort_sortedBy others).stable offset
  constructor
  · intro h
    have hsorted : SortedBy Point.offset others (sort points) :=
      ⟨(sort_sortedBy points).ascending, fun offset => (hstable offset).trans (h offset).symm⟩
    exact (sort_sortedBy others).unique hsorted
  · intro h offset
    rw [← hothers, h, hstable]

theorem Rearranged.perm (h : Rearranged points others) : others.Perm points := by
  have hothers : (sort others).Perm others := List.mergeSort_perm others _
  rw [rearranged_iff.mp h] at hothers
  exact hothers.symm.trans (List.mergeSort_perm points _)

end Point

namespace Buffer
variable {text : Text} {points : List Point}

theorem orderWarnings_eq (b : Buffer) (file : String) :
    (Point.Descends b.points → b.orderWarnings file = [.outOfOrder file]) ∧
      (¬ Point.Descends b.points → b.orderWarnings file = []) := by
  rw [orderWarnings, ← Point.inOrder_eq_false_iff]
  constructor
  · intro h
    rw [h, if_neg Bool.false_ne_true]
  · intro h
    rw [if_pos (Bool.not_eq_false _ ▸ h)]

end Buffer

namespace Session
variable (s : Session) (name : String) (dialect : Json.Dialect) (file : String)

/-- The answer of a session that is asked for the map of a buffer right after an action made it. -/
def mapped (action : Action) : Answer :=
  ((s.step ⟨name, dialect, action⟩).2.step ⟨name, dialect, .toDocument file⟩).1

/-- What is answered to the request for the map of a buffer. -/
def mapAnswer (b : Buffer) : Answer :=
  ⟨((b.toDocument file).map .document).mapError .ofTrace, b.orderWarnings file⟩

theorem step_toDocument {b : Buffer} (h : s.buffers name = some b) :
    (s.step ⟨name, dialect, .toDocument file⟩).1 = mapAnswer file b := by
  simp only [step, buffer, h, mapAnswer]

theorem mapped_createUnchecked (text : Text) (points : List Point) :
    s.mapped name dialect file (.createUnchecked text points) =
      mapAnswer file ⟨text, points⟩ :=
  step_toDocument _ name dialect file (setBuffer_same s name ⟨text, points⟩)

theorem step_create {text : Text} {points : List Point}
    (h : ∀ p ∈ points, 0 ≤ p.offset ∧ p.offset ≤ text.length) :
    s.step ⟨name, dialect, .create text points⟩ =
      (.of (.ok .nothing), s.setBuffer name ⟨text, Point.sort points⟩) := by
  simp only [step, Buffer.ofPoints_eq_ok h]
  rfl

theorem mapped_create {text : Text} {points : List Point}
    (h : ∀ p ∈ points, 0 ≤ p.offset ∧ p.offset ≤ text.length) :
    s.mapped name dialect file (.create text points) =
      mapAnswer file ⟨text, Point.sort points⟩ := by
  rw [mapped, step_create s name dialect h]
  exact step_toDocument _ name dialect file (setBuffer_same s name _)

theorem mapAnswer_outcome {b : Buffer}
    (h : ∀ p ∈ b.points, 0 ≤ p.offset ∧ p.offset ≤ b.text.length) :
    (mapAnswer file b).outcome =
      ((Document.ofEntries (b.points.map (Point.entryIn b.text)) file "").map .document).mapError
        .origin := by
  rw [mapAnswer, Buffer.toDocument_eq h]
  cases Document.ofEntries (b.points.map (Point.entryIn b.text)) file "" <;> rfl

/-- Points in order make the map that they make in any order, failures included. -/
theorem mapAnswer_sort {text : Text} {points : List Point}
    (h : ∀ p ∈ points, 0 ≤ p.offset ∧ p.offset ≤ text.length) :
    (mapAnswer file ⟨text, Point.sort points⟩).outcome = (mapAnswer file ⟨text, points⟩).outcome := by
  have hsorted : ∀ p ∈ Point.sort points, 0 ≤ p.offset ∧ p.offset ≤ text.length :=
    fun p hp => h p (Point.mem_sort.mp hp)
  rw [mapAnswer_outcome file hsorted, mapAnswer_outcome file h]
  dsimp only
  rw [Point.map_entryIn_sort h, Document.ofEntries_sort]

/-- **The map of a buffer does not depend on the order of its points.**  Points in a text make the map
of their entries as they are given, or fail as these do, in a buffer that holds them as they are and in
one that puts them in order.  The first warns exactly when some point has a smaller offset than one in
front of it, the second never; and every rearrangement of the points that keeps those of one offset
in order has the same outcome. -/
theorem mapped_any_order {text : Text} {points : List Point}
    (hinside : ∀ p ∈ points, 0 ≤ p.offset ∧ p.offset ≤ text.length) :
    let held (given : List Point) := s.mapped name dialect file (.createUnchecked text given)
    let ordered (given : List Point) := s.mapped name dialect file (.create text given)
    (s.step ⟨name, dialect, .create text points⟩).1.outcome = .ok .nothing ∧
      (held points).outcome =
        ((Document.ofEntries (points.map (Point.entryIn text)) file "").map .document).mapError
          .origin ∧
      (ordered points).outcome = (held points).outcome ∧
      (Point.Descends points → (held points).warnings = [.outOfOrder file]) ∧
      (¬ Point.Descends points → (held points).warnings = []) ∧
      (ordered points).warnings = [] ∧
      ∀ others, Point.Rearranged points others →
        (held others).outcome = (held points).outcome ∧
          (ordered others).outcome = (held points).outcome := by
  intro held ordered
  have hheld (given : List Point) : held given = mapAnswer file ⟨text, given⟩ :=
    s.mapped_createUnchecked name dialect file text given
  have hordered {given : List Point} (h : ∀ p ∈ given, 0 ≤ p.offset ∧ p.offset ≤ text.length) :
      ordered given = mapAnswer file ⟨text, Point.sort given⟩ :=
    s.mapped_create name dialect file h
  obtain ⟨hwarned, hsilent⟩ := Buffer.orderWarnings_eq ⟨text, points⟩ file
  refine ⟨?_, ?_, ?_, ?_, ?_, ?_, fun others hothers => ?_⟩
  · rw [s.step_create name dialect hinside]
    rfl
  · rw [hheld, mapAnswer_outcome file hinside]
  · rw [hheld, hordered hinside, mapAnswer_sort file hinside]
  · rw [hheld]
    exact hwarned
  · rw [hheld]
    exact hsilent
  · have hsorted : Point.inOrder (Point.sort points) = true :=
      Point.inOrder_iff.mpr (Point.sort_sortedBy points).ascending
    rw [hordered hinside]
    exact if_pos hsorted
  · have hinside' : ∀ p ∈ others, 0 ≤ p.offset ∧ p.offset ≤ text.length :=
      fun p hp => hinside p (hothers.perm.mem_iff.mp hp)
    have hsame : (mapAnswer file ⟨text, Point.sort others⟩).outcome =
        (mapAnswer file ⟨text, points⟩).outcome := by
      rw [Point.rearranged_iff.mp hothers, mapAnswer_sort file hinside]
    rw [hheld, hheld, hordered hinside', hsame]
    exact ⟨(mapAnswer_sort file hinside').symm.trans hsame, rfl⟩

/-- Three lines. -/
def threeLines : Text := ['a', '\n', '\n', 'b']

/-- Points of which two at one offset stand behind one of a greater offset. -/
def descending : List Point :=
  [⟨3, some "s", some 2, some 0, ""⟩, ⟨1, some "t", some 1, some 4, "f"⟩, ⟨1, none, none, none, ""⟩]

/-- The same points with the last offset between the other two. -/
def parted : List Point :=
  [⟨1, some "t", some 1, some 4, "f"⟩, ⟨3, some "s", some 2, some 0, ""⟩, ⟨1, none, none, none, ""⟩]

theorem mapped_any_order_descending :
    let s := start ⟨.single, ["home"]⟩
    let held (given : List Point) := s.mapped "main" .strict "o" (.createUnchecked threeLines given)
    let ordered (given : List Point) := s.mapped "main" .strict "o" (.create threeLines given)
    (∀ p ∈ descending, 0 ≤ p.offset ∧ p.offset ≤ threeLines.length) ∧
      Point.Descends descending ∧ Point.Rearranged descending parted ∧
      (held descending).warnings = [.outOfOrder "o"] ∧ (ordered descending).warnings = [] ∧
      (held parted).outcome = (held descending).outcome ∧
      (ordered parted).outcome = (held descending).outcome ∧
      (held descending).outcome =
        .ok (.document ⟨"o", "", ["t", "s"], ["f"], "CAAIA,A;;ACCJ".toList⟩) := by
  intro s held ordered
  have hinside : ∀ p ∈ descending, 0 ≤ p.offset ∧ p.offset ≤ threeLines.length := by decide
  have hdescends : Point.Descends descending := ⟨0, 1, by decide, by decide, by decide, by decide⟩
  have hparted : Point.Rearranged descending parted := by
    refine Point.rearranged_iff.mpr ?_
    cbv
  obtain ⟨-, hmade, -, hwarned, -, hsilent, hsame⟩ :=
    mapped_any_order s "main" .strict "o" hinside
  refine ⟨hinside, hdescends, hparted, hwarned hdescends, hsilent, (hsame parted hparted).1,
    (hsame parted hparted).2, hmade.trans ?_⟩
  cbv

end Session

end TracedText
