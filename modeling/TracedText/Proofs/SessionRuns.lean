import Mathlib
import TracedText.Proofs.BatchOrders
import TracedText.Session.Run

/-! # Buffers over whole sessions

A step either leaves all buffers as they were, which it does whenever it fails, or stores one buffer
under one name, the `Step.target` (`step_stored`).  For a batch, whose ranges are deleted one by one,
this rests on `Buffer.deleteAll_eq_error`.  What is stored is consistent when all buffers are, unless
the step takes points as they are given.  By induction over the steps, a session whose buffers are
consistent keeps them so (`after_consistent_and_framed`). -/

namespace TracedText

/-- Whether the action checks the points that it is given. -/
def Action.checksPoints : Action → Bool
  | .createUnchecked _ _ => false
  | _ => true

/-- The name under which a step stores a buffer, if it stores one. -/
def Step.target (step : Step) : String :=
  match step.action with
  | .slice _ _ target => target
  | _ => step.name

namespace Session

/-- Every buffer of the session is consistent. -/
def Consistent (s : Session) : Prop := ∀ name b, s.buffers name = some b → b.Consistent

/-- The session behind a list of steps. -/
def after (s : Session) (steps : List Step) : Session :=
  match (s.run steps).getLast? with
  | some next => next.2
  | none => s

variable {s : Session}

theorem start_consistent (home : Path) : (start home).Consistent := nofun

@[simp] theorem after_nil : s.after [] = s := rfl

@[simp] theorem after_cons (step : Step) (rest : List Step) :
    s.after (step :: rest) = (s.step step).2.after rest := by
  unfold after
  rw [run, List.getLast?_cons]
  cases h : ((s.step step).2.run rest).getLast? <;> rfl

/-! ### One step -/

/-- The buffers are as before, or the outcome is a success and one buffer with a property was stored
under the name. -/
def Stored (s : Session) (name : String) (property : Buffer → Prop) (next : Answer × Session) :
    Prop :=
  next.2.buffers = s.buffers ∨
    ∃ b reply, next.1.outcome = .ok reply ∧ next.2.buffers = (s.setBuffer name b).buffers ∧
      property b

section
variable {name : String} {property : Buffer → Prop}

theorem updated_stored {result : Except Failure Buffer}
    (h : ∀ b, result = .ok b → property b) : s.Stored name property (s.updated name result) := by
  cases result with
  | error failure => exact Or.inl rfl
  | ok b => exact Or.inr ⟨b, .nothing, rfl, rfl, h b rfl⟩

theorem stepSlice_stored {target : String} {start stop : ℤ}
    (h : ∀ b part, s.buffer name = .ok b → b.slice start stop = .ok part → property part) :
    s.Stored target property (s.stepSlice name target start stop) := by
  unfold stepSlice
  cases hb : s.buffer name with
  | error failure => exact Or.inl rfl
  | ok b =>
      cases hpart : b.slice start stop with
      | error e => exact Or.inl (by simp only [hpart])
      | ok part =>
          refine Or.inr ⟨part, .buffer part, ?_, ?_, h b part hb hpart⟩
          · simp only [hpart, Answer.of]
          · simp only [hpart]

/-- A batch that fails has changed nothing, although its ranges are deleted one by one. -/
theorem stepDeleteAll_stored {ranges : List (ℤ × ℤ)} {base : ℤ}
    (h : ∀ b batch c, s.buffer name = .ok b → b.deleteAll base batch = .ok c → property c) :
    s.Stored name property (s.stepDeleteAll name ranges base) := by
  unfold stepDeleteAll
  extract_lets given
  cases hgiven : given with
  | error failure => exact Or.inl rfl
  | ok found =>
      obtain ⟨b, hb, hgiven⟩ := bind_eq_ok.mp hgiven
      obtain ⟨batch, _, hgiven⟩ := bind_eq_ok.mp hgiven
      cases hgiven
      cases hc : b.deleteAll base batch with
      | error failed =>
          obtain ⟨error, left⟩ := failed
          obtain rfl : left = b := Buffer.deleteAll_eq_error hc
          apply Or.inl
          simp only [hc, setBuffer_self s (buffer_eq_ok.mp hb)]
      | ok c =>
          refine Or.inr ⟨c, .count batch.length, ?_, ?_, h b batch c hb hc⟩
          · simp only [hc, Answer.of]
          · simp only [hc]

theorem stepDeleteExtent_stored {start stop : ℤ}
    (h : ∀ b offset count c, s.buffer name = .ok b → b.delete offset count = .ok c → property c) :
    s.Stored name property (s.stepDeleteExtent name start stop) := by
  unfold stepDeleteExtent
  extract_lets result
  cases hresult : result with
  | error failure => exact Or.inl rfl
  | ok found =>
      obtain ⟨extent, c⟩ := found
      refine Or.inr ⟨c, .extent extent.1 extent.2, rfl, rfl, ?_⟩
      obtain ⟨b, hb, hresult⟩ := bind_eq_ok.mp hresult
      obtain ⟨extent', _, hresult⟩ := bind_eq_ok.mp hresult
      obtain ⟨c', hc, hresult⟩ := bind_eq_ok.mp hresult
      cases hresult
      exact h b _ _ c hb (mapError_eq_ok.mp hc)

theorem stepSave_stored {dialect : Json.Dialect} {path : String} {pretty : Bool} :
    s.Stored name property (s.stepSave dialect name path pretty) := by
  unfold stepSave
  cases s.buffer name <;> exact Or.inl rfl

theorem stepLoad_stored {dialect : Json.Dialect} {path : String}
    (h : ∀ b warnings, Buffer.load s.disk dialect (s.path path) = .ok (b, warnings) →
      property b) : s.Stored name property (s.stepLoad dialect name path) := by
  unfold stepLoad
  cases hload : Buffer.load s.disk dialect (s.path path) with
  | error e => exact Or.inl rfl
  | ok loaded => exact Or.inr ⟨loaded.1, .nothing, rfl, rfl, h loaded.1 loaded.2 hload⟩

theorem stepOpenCached_stored {dialect : Json.Dialect} {path : String} :
    s.Stored name property (s.stepOpenCached dialect path) := by
  unfold stepOpenCached
  extract_lets p
  split
  · exact Or.inl rfl
  · cases s.cache.get s.disk dialect p.resolve <;> exact Or.inl rfl

end

end Session

theorem Buffer.load_consistent {d : Disk} {dialect : Json.Dialect} {p : Path} {b : Buffer}
    {warnings : List Warning} (h : Buffer.load d dialect p = .ok (b, warnings)) :
    b.Consistent := by
  unfold load at h
  obtain ⟨text, _, h⟩ := bind_eq_ok.mp h
  split at h
  · cases h
    exact ofText_consistent text
  · unfold loadMarked at h
    obtain ⟨body, _, h⟩ := bind_eq_ok.mp h
    obtain ⟨target, _, h⟩ := bind_eq_ok.mp h
    obtain ⟨entries, _, h⟩ := bind_eq_ok.mp h
    obtain ⟨points, _, h⟩ := bind_eq_ok.mp h
    obtain ⟨c, hc, h⟩ := bind_eq_ok.mp h
    cases h
    exact ofPoints_consistent (mapError_eq_ok.mp hc)

namespace Session
variable {s : Session}

theorem buffer_consistent (hs : s.Consistent) {name : String} {b : Buffer}
    (h : s.buffer name = .ok b) : b.Consistent :=
  hs name b (buffer_eq_ok.mp h)

theorem insertion_consistent (hs : s.Consistent) {value : Value} {insertion : Insertion}
    (h : s.insertion value = .ok insertion) : insertion.Consistent := by
  cases value with
  | text t =>
      cases h
      trivial
  | buffer name =>
      obtain ⟨b, hb, rfl⟩ := map_eq_ok.mp h
      exact buffer_consistent hs hb
  | foreign value =>
      cases h
      trivial

theorem spliced_consistent (hs : s.Consistent) {name : String} {value : Value} {b c : Buffer}
    {insertion : Insertion} {offset count : ℤ} (hb : s.buffer name = .ok b)
    (hi : s.insertion value = .ok insertion) (h : b.splice offset count insertion = .ok c) :
    c.Consistent :=
  Buffer.splice_consistent (buffer_consistent hs hb) (insertion_consistent hs hi) h

/-- **What a step does to the buffers.** Unless the step takes points as they are given, what it
stores is consistent when all buffers are. -/
theorem step_stored (s : Session) (step : Step) :
    s.Stored step.target
      (fun b => s.Consistent → step.action.checksPoints = true → b.Consistent) (s.step step) := by
  obtain ⟨name, dialect, action⟩ := step
  cases action with
  | create text points =>
      apply updated_stored
      intro b hb _ _
      exact Buffer.ofPoints_consistent (mapError_eq_ok.mp hb)
  | createUnchecked text points =>
      apply updated_stored
      intro b _ _ hchecks
      cases hchecks
  | splice offset count value =>
      apply updated_stored
      intro c hc hs _
      obtain ⟨b, hb, hc⟩ := bind_eq_ok.mp hc
      obtain ⟨insertion, hi, hc⟩ := bind_eq_ok.mp hc
      exact spliced_consistent hs hb hi (mapError_eq_ok.mp hc)
  | insert offset value =>
      apply updated_stored
      intro c hc hs _
      obtain ⟨b, hb, hc⟩ := bind_eq_ok.mp hc
      obtain ⟨insertion, hi, hc⟩ := bind_eq_ok.mp hc
      exact spliced_consistent hs hb hi (mapError_eq_ok.mp hc)
  | delete offset count =>
      apply updated_stored
      intro c hc hs _
      obtain ⟨b, hb, hc⟩ := bind_eq_ok.mp hc
      exact Buffer.delete_consistent (buffer_consistent hs hb) (mapError_eq_ok.mp hc)
  | append value =>
      apply updated_stored
      intro c hc hs _
      obtain ⟨b, hb, hc⟩ := bind_eq_ok.mp hc
      obtain ⟨insertion, hi, hc⟩ := bind_eq_ok.mp hc
      exact spliced_consistent hs hb hi (mapError_eq_ok.mp hc)
  | slice start stop target =>
      apply stepSlice_stored
      intro b part hb hpart hs _
      exact Buffer.slice_consistent (buffer_consistent hs hb) hpart
  | deleteAll ranges base =>
      apply stepDeleteAll_stored
      intro b batch c hb hc hs _
      exact Buffer.deleteAll_consistent (buffer_consistent hs hb) hc
  | deleteExtent start stop =>
      apply stepDeleteExtent_stored
      intro b offset count c hb hc hs _
      exact Buffer.delete_consistent (buffer_consistent hs hb) hc
  | describe => exact Or.inl rfl
  | toDocument file =>
      apply Or.inl
      simp only [Session.step]
      cases s.buffer name <;> rfl
  | save path pretty =>
      show s.Stored name _ (s.stepSave dialect name path pretty)
      exact stepSave_stored
  | load path =>
      show s.Stored name _ (s.stepLoad dialect name path)
      apply stepLoad_stored
      intro b warnings hload _ _
      exact Buffer.load_consistent hload
  | loadEntries path => exact Or.inl rfl
  | openSource path map => exact Or.inl rfl
  | openCached path =>
      show s.Stored name _ (s.stepOpenCached dialect path)
      exact stepOpenCached_stored
  | clearCache => exact Or.inl rfl
  | writeBytes path bytes =>
      apply Or.inl
      simp only [Session.step, written]
  | readText path => exact Or.inl rfl
  | readBytes path => exact Or.inl rfl

theorem step_consistent (hs : s.Consistent) {step : Step}
    (hstep : step.action.checksPoints = true) : (s.step step).2.Consistent := by
  intro name b hb
  rcases step_stored s step with hsame | ⟨c, reply, _, hstored, hc⟩
  · rw [hsame] at hb
    exact hs name b hb
  · rw [hstored] at hb
    by_cases hname : name = step.target
    · subst hname
      rw [setBuffer_same] at hb
      cases hb
      exact hc hs hstep
    · rw [setBuffer_ne s c hname] at hb
      exact hs name b hb

theorem step_frame (step : Step) {name : String} (h : name ≠ step.target) :
    (s.step step).2.buffers name = s.buffers name := by
  rcases step_stored s step with hsame | ⟨c, reply, _, hstored, _⟩
  · rw [hsame]
  · rw [hstored, setBuffer_ne s c h]

theorem step_failed {step : Step} {failure : Failure}
    (h : (s.step step).1.outcome = .error failure) : (s.step step).2.buffers = s.buffers := by
  rcases step_stored s step with hsame | ⟨c, reply, hok, _, _⟩
  · exact hsame
  · rw [hok] at h
    cases h

/-! ### All steps -/

theorem after_consistent (hs : s.Consistent) {steps : List Step}
    (hsteps : ∀ step ∈ steps, step.action.checksPoints = true) : (s.after steps).Consistent := by
  induction steps generalizing s with
  | nil => exact hs
  | cons step rest ih =>
      rw [after_cons]
      apply ih (step_consistent hs (hsteps step List.mem_cons_self))
      exact fun other hother => hsteps other (List.mem_cons_of_mem step hother)

/-- **The invariant of whole sessions.** Whatever steps a session with consistent buffers has taken,
failing ones among them, its buffers are consistent; and whatever step comes next changes at most
the buffer of its target, and none when it fails. -/
theorem after_consistent_and_framed (hs : s.Consistent) (steps : List Step)
    (hsteps : ∀ step ∈ steps, step.action.checksPoints = true) :
    (s.after steps).Consistent ∧ ∀ step : Step,
      (∀ name, name ≠ step.target →
        ((s.after steps).step step).2.buffers name = (s.after steps).buffers name) ∧
      (∀ failure, ((s.after steps).step step).1.outcome = .error failure →
        ((s.after steps).step step).2.buffers = (s.after steps).buffers) :=
  ⟨after_consistent hs hsteps, fun step =>
    ⟨fun _ hname => step_frame step hname, fun _ hfailure => step_failed hfailure⟩⟩

/-- Steps that make a buffer of points in no order, put it into itself, fail to cut it, and store its
front under another name. -/
def selfInsertion : List Step :=
  [⟨"main", .strict, .create ['a', 'b']
      [⟨2, some "s", some 1, some 0, ""⟩, ⟨0, none, none, none, ""⟩]⟩,
    ⟨"main", .strict, .insert 1 (.buffer "main")⟩,
    ⟨"main", .strict, .delete 3 9⟩,
    ⟨"main", .strict, .slice 0 2 "front"⟩]

/-- A batch of a range in the four letters that the steps leave, and of one outside. -/
def halfOutside : Step := ⟨"main", .strict, .deleteAll [(0, 1), (3, 9)] 0⟩

/-- The front stays when the whole text is deleted, and everything when a batch fails. -/
theorem after_selfInsertion :
    (start ⟨.single, ["home"]⟩).Consistent ∧
      (∀ step ∈ selfInsertion, step.action.checksPoints = true) ∧
      let s := (start ⟨.single, ["home"]⟩).after selfInsertion
      s.Consistent ∧
        (s.step ⟨"main", .strict, .delete 0 4⟩).1.outcome = .ok .nothing ∧
        (s.step ⟨"main", .strict, .delete 0 4⟩).2.buffers "front" = s.buffers "front" ∧
        (s.step halfOutside).1.outcome = .error (.range (.deletionOutside 3 9 0 4)) ∧
        (s.step halfOutside).2.buffers = s.buffers := by
  have hsteps : ∀ step ∈ selfInsertion, step.action.checksPoints = true := by decide
  obtain ⟨hconsistent, hnext⟩ := after_consistent_and_framed
    (start_consistent ⟨.single, ["home"]⟩) selfInsertion hsteps
  refine ⟨start_consistent _, hsteps, hconsistent, by cbv,
    (hnext ⟨"main", .strict, .delete 0 4⟩).1 "front" (by decide), ?_⟩
  have hfailed : (((start ⟨.single, ["home"]⟩).after selfInsertion).step halfOutside).1.outcome =
      .error (.range (.deletionOutside 3 9 0 4)) := by cbv
  exact ⟨hfailed, (hnext halfOutside).2 _ hfailed⟩

end Session

end TracedText
