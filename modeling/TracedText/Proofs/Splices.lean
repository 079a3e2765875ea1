import TracedText.Proofs.Batches

/-! # What a splice does

A splice first checks its span, then what it inserts, and changes its buffer only when both are in
order.  `Session.step_splice` tells all three outcomes: the failure with the number that is out of
place (`misplaced`), the failure with what cannot be inserted, and the new text and points.  The
number that is out of place can be too long for words (`exists_checkSpan_eq_error`), and then another
failure is told in place of the first. -/

namespace TracedText

/-- The number that is out of place in a span outside the text: its offset in front of the text, a
negative length, or its end behind the text. -/
def misplaced (offset count : ℤ) : ℤ :=
  if offset < 0 then offset else if count < 0 then count else offset + count

namespace Buffer
variable {b : Buffer} {offset count : ℤ}

/-- The check of a span outside the text names the number that is out of place, and no other that is
longer. -/
theorem exists_checkSpan_eq_error
    (h : offset < 0 ∨ count < 0 ∨ b.text.length < offset + count) :
    ∃ (error : RangeError) (front rest : Message), b.checkSpan offset count = .error error ∧
      error.message = front ++ .number (misplaced offset count) :: rest ∧ front.Sayable ∧
      ((misplaced offset count).natAbs < Nat.pow 10 Bounds.digits → rest.Sayable) := by
  unfold checkSpan misplaced
  split_ifs with hoffset hcount hstop
  · exact ⟨.spliceOffset offset, ["Invalid splice offset "], [], rfl, rfl, by simp, by simp⟩
  · exact ⟨.spliceLength count, ["Invalid splice length "], [], rfl, rfl, by simp, by simp⟩
  · refine ⟨.spliceEnd (offset + count) b.text.length, ["Invalid splice end offset "],
      [" for text of length ", b.text.length], rfl, rfl, by simp, ?_⟩
    -- The length of the text is the smaller of the two numbers.
    intro hshort
    simp only [Message.sayable_cons, Message.sayable_nil, Piece.sayable_words,
      Piece.sayable_natCast, true_and, and_true]
    generalize Nat.pow 10 Bounds.digits = bound at *
    omega
  · exact absurd h (by omega)

theorem splice_of_checkSpan_eq_error {error : RangeError}
    (h : b.checkSpan offset count = .error error) (insertion : Insertion) :
    b.splice offset count insertion = .error (.range error) := by
  rw [splice, h]
  rfl

theorem splice_foreign (hoffset : 0 ≤ offset) (hcount : 0 ≤ count)
    (hstop : offset + count ≤ b.text.length) (value : Json) :
    b.splice offset count (.foreign value) = .error (.foreign value) := by
  rw [splice, checkSpan_eq_ok.mpr ⟨hoffset, hcount, hstop⟩]
  rfl

/-- The text and the points of a buffer with another one in place of a span. -/
def spliced (b : Buffer) (offset count : ℤ) (inserted : Buffer) : Buffer where
  text := b.text.take offset.toNat ++ inserted.text ++ b.text.drop (offset + count).toNat
  points :=
    (b.points.filter fun p => p.offset < offset) ++ inserted.points.map (Point.shift offset) ++
      (b.points.filter fun p => offset + count ≤ p.offset).map
        (Point.shift (inserted.text.length - count))

theorem splice_eq_spliced (hb : b.Consistent) {insertion : Insertion} {inserted : Buffer}
    (hinsertion : insertion.toBuffer = .ok inserted) (hi : inserted.Consistent)
    (hoffset : 0 ≤ offset) (hcount : 0 ≤ count) (hstop : offset + count ≤ b.text.length) :
    b.splice offset count insertion = .ok (b.spliced offset count inserted) := by
  rw [splice_of_span hinsertion hoffset hcount hstop]
  lift offset to ℕ using hoffset
  lift count to ℕ using hcount
  refine congrArg Except.ok (congrArg₂ Buffer.mk rfl ?_)
  have hpoints := replaced_points hb hi (Nat.le_add_right offset count)
  rw [Nat.add_sub_cancel_left, Int.natCast_add] at hpoints
  exact hpoints

end Buffer

namespace Session
variable {s : Session} {name : String} {b : Buffer}

theorem step_splice_eq (hs : s.buffers name = some b) {value : Value} {insertion : Insertion}
    (hvalue : s.insertion value = .ok insertion) (dialect : Json.Dialect) (offset count : ℤ) :
    s.step ⟨name, dialect, .splice offset count value⟩ =
      match b.splice offset count insertion with
      | .ok c => (.of (.ok .nothing), s.setBuffer name c)
      | .error error => (.of (.error (.ofSplice error)), s) := by
  have hbuffer : s.buffer name = .ok b := by
    simp only [buffer, hs]
  have hstep : s.step ⟨name, dialect, .splice offset count value⟩ =
      s.updated name ((b.splice offset count insertion).mapError .ofSplice) := by
    show s.updated name (s.buffer name >>= fun b => s.insertion value >>= fun insertion =>
      (b.splice offset count insertion).mapError .ofSplice) = _
    rw [hbuffer, hvalue]
    rfl
  rw [hstep]
  cases b.splice offset count insertion <;> rfl

/-- **What a splice does.**  A splice fails with a range outside the text exactly when its offset or
its length is negative or its span ends behind the text, whatever is to be inserted; otherwise it
fails exactly when the insertion is neither a text nor a buffer; and a failed splice leaves the
session as it was.  In every other case the span is replaced, in the text and in the points, and the
insertion may be the very buffer that it is put into.

A failure is told in its own words.  Only a range outside the text may not be: when the number that
is out of place is too long for words, it is told as a number that cannot be put into words. -/
theorem step_splice (hs : s.buffers name = some b) (hb : b.Consistent) {value : Value}
    {insertion : Insertion} (hvalue : s.insertion value = .ok insertion)
    (hi : insertion.Consistent) (dialect : Json.Dialect) (offset count : ℤ) :
    let next := s.step ⟨name, dialect, .splice offset count value⟩
    (offset < 0 ∨ count < 0 ∨ b.text.length < offset + count → ∃ error : RangeError,
      next = (.of (.error (.range error)), s) ∧
      ((misplaced offset count).natAbs < Nat.pow 10 Bounds.digits →
        ∃ words, (Failure.range error).told = (.range error, some words)) ∧
      (Nat.pow 10 Bounds.digits ≤ (misplaced offset count).natAbs →
        (Failure.range error).told = (.unsayable .longNumber, none))) ∧
    (0 ≤ offset → 0 ≤ count → offset + count ≤ b.text.length →
      (∀ foreign, insertion = .foreign foreign →
        next = (.of (.error (.foreign foreign)), s) ∧
        ∃ words, (Failure.foreign foreign).told = (.foreign foreign, some words)) ∧
      ∀ inserted, insertion.toBuffer = .ok inserted →
        next = (.of (.ok .nothing), s.setBuffer name (b.spliced offset count inserted))) := by
  intro next
  have hnext : next = _ := step_splice_eq hs hvalue dialect offset count
  refine ⟨fun hout => ?_, fun hoffset hcount hstop => ⟨?_, ?_⟩⟩
  · obtain ⟨error, front, rest, hcheck, hmessage, hfront, hrest⟩ :=
      Buffer.exists_checkSpan_eq_error hout
    have htold : (Failure.range error).message = some _ := congrArg some hmessage
    rw [Buffer.splice_of_checkSpan_eq_error hcheck] at hnext
    refine ⟨error, hnext, fun hshort => ?_, Failure.told_of_longNumber front _ htold hfront⟩
    refine Failure.told_of_sayable htold (List.forall_mem_append.mpr ⟨hfront, ?_⟩)
    exact Message.sayable_cons.mpr ⟨hshort, hrest hshort⟩
  · rintro foreign rfl
    have hmessage : (SpliceError.foreign foreign).message.Sayable := by simp [SpliceError.message]
    rw [Buffer.splice_foreign hoffset hcount hstop] at hnext
    exact ⟨hnext, Failure.told_of_sayable rfl hmessage⟩
  · intro inserted hinsertion
    rw [Buffer.splice_eq_spliced hb hinsertion (Insertion.toBuffer_consistent hi hinsertion)
      hoffset hcount hstop] at hnext
    exact hnext

/-- The three letters are put into themselves, in the place of the second. -/
theorem step_splice_lettered :
    lettered.buffers "main" = some Buffer.letters ∧ Buffer.letters.Consistent ∧
      lettered.insertion (.buffer "main") = .ok (.buffer Buffer.letters) ∧
      lettered.step ⟨"main", .strict, .splice 1 1 (.buffer "main")⟩ =
        (.of (.ok .nothing), lettered.setBuffer "main" ⟨['a', 'a', 'b', 'c', 'c'],
          [⟨0, some "s", some 1, some 0, ""⟩, ⟨1, some "s", some 1, some 0, ""⟩,
            ⟨2, some "s", some 1, some 4, "n"⟩, ⟨4, none, none, none, ""⟩,
            ⟨5, none, none, none, ""⟩]⟩) := by
  have hs : lettered.buffers "main" = some Buffer.letters := setBuffer_same _ _ _
  have hvalue : lettered.insertion (.buffer "main") = .ok (.buffer Buffer.letters) := by
    simp only [insertion, buffer, hs]
    rfl
  have hspliced : Buffer.letters.spliced 1 1 Buffer.letters = ⟨['a', 'a', 'b', 'c', 'c'],
      [⟨0, some "s", some 1, some 0, ""⟩, ⟨1, some "s", some 1, some 0, ""⟩,
        ⟨2, some "s", some 1, some 4, "n"⟩, ⟨4, none, none, none, ""⟩,
        ⟨5, none, none, none, ""⟩]⟩ := by decide
  have hsplice := ((step_splice hs Buffer.letters_consistent hvalue Buffer.letters_consistent
    .strict 1 1).2 (by decide) (by decide) (by decide)).2 Buffer.letters rfl
  rw [hspliced] at hsplice
  exact ⟨hs, Buffer.letters_consistent, hvalue, hsplice⟩

/-- A splice outside a buffer is not told as such when the end of its span is too long a number. -/
theorem step_splice_far :
    ∃ failure, lettered.step ⟨"main", .strict, .splice farBase 1 (.text [])⟩ =
      (.of (.error failure), lettered) ∧ failure.told = (.unsayable .longNumber, none) := by
  have hs : lettered.buffers "main" = some Buffer.letters := setBuffer_same _ _ _
  have hpos := one_lt_farBase
  have hlength : (Buffer.letters.text.length : ℤ) = 3 := rfl
  have hout : farBase < 0 ∨ (1 : ℤ) < 0 ∨ Buffer.letters.text.length < farBase + 1 := by
    have hbound := ten_le_pow_digits
    unfold farBase at *
    generalize Nat.pow 10 Bounds.digits = bound at *
    omega
  have hlong : Nat.pow 10 Bounds.digits ≤ (misplaced farBase 1).natAbs := by
    rw [misplaced, if_neg (by omega), if_neg (by decide)]
    unfold farBase
    generalize Nat.pow 10 Bounds.digits = bound
    omega
  obtain ⟨error, front, rest, hcheck, hmessage, hfront, -⟩ :=
    Buffer.exists_checkSpan_eq_error hout
  have hvalue : lettered.insertion (.text []) = .ok (.text []) := rfl
  have hstep := step_splice_eq hs hvalue .strict farBase 1
  rw [Buffer.splice_of_checkSpan_eq_error hcheck] at hstep
  exact ⟨.range error, hstep,
    Failure.told_of_longNumber front _ (congrArg some hmessage) hfront hlong⟩

end Session

end TracedText
