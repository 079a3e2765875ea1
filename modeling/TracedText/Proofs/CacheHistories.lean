import TracedText.Proofs.Outcomes
import TracedText.Session.Run

/-! # Histories of the cache

Files are fetched through the cache, the cache is cleared, and the files on the disk change.  The
cache gives the very object of the last success exactly when this was of the same path and the cache
was not cleared behind it; otherwise it gives what the disk holds, and a failure changes nothing
(`World.fetch_after`).  One event keeps the cache in accord with the past (`World.step_sound`), and
so does any list of them (`World.after_sound`). -/

namespace TracedText

/-! ### Fetching a path -/

/-- What a path is resolved to, unless it holds a zero character. -/
def Path.resolved? (p : Path) : Option Path := if p.hasZero then none else some p.resolve

/-- The source file at the resolved path. -/
def SourceFile.loadResolved (d : Disk) (dialect : Json.Dialect) (p : Path) :
    Except LoadError SourceFile :=
  match p.resolved? with
  | none => .error (.disk p.toString .zeroInPath)
  | some key => load d dialect key none

namespace Cache

/-- The source file at a path through the cache, which keeps it under the resolved path. -/
def fetch (c : Cache) (d : Disk) (dialect : Json.Dialect) (p : Path) :
    Except LoadError (Loaded × Cache) :=
  match p.resolved? with
  | none => .error (.disk p.toString .zeroInPath)
  | some key => c.get d dialect key

variable {c next : Cache} {d : Disk} {dialect : Json.Dialect} {p key : Path} {loaded : Loaded}

theorem get_of_find?_some (h : c.find? key = some loaded) :
    c.get d dialect key = .ok (loaded, c) := by
  rw [get, h]

theorem get_of_find?_none (h : c.find? key = none) :
    c.get d dialect key = (SourceFile.load d dialect key none).map fun file =>
      (⟨c.next, file⟩, ⟨some (key, ⟨c.next, file⟩), c.next + 1⟩) := by
  rw [get, h]
  cases SourceFile.load d dialect key none <;> rfl

/-- A fetch that succeeds gives what is kept, or else what is on the disk, as a new object that is
kept from then on. -/
theorem fetch_eq_ok (h : c.fetch d dialect p = .ok (loaded, next)) :
    ∃ key, p.resolved? = some key ∧ (c.find? key = some loaded ∧ next = c ∨
      c.find? key = none ∧ loaded.ticket = c.next ∧
        next = ⟨some (key, loaded), c.next + 1⟩) := by
  unfold fetch at h
  split at h
  · cases h
  · rename_i key hkey
    refine ⟨key, hkey, ?_⟩
    cases hfind : c.find? key with
    | some kept =>
        rw [get_of_find?_some hfind] at h
        obtain ⟨rfl, rfl⟩ := Prod.mk.inj (Except.ok.inj h)
        exact Or.inl ⟨rfl, rfl⟩
    | none =>
        rw [get_of_find?_none hfind, map_eq_ok] at h
        obtain ⟨file, _, h⟩ := h
        obtain ⟨rfl, rfl⟩ := Prod.mk.inj h
        exact Or.inr ⟨rfl, rfl, rfl⟩

end Cache

/-- A step of a session that opens a source file fetches its path. -/
theorem Session.stepOpenCached_eq (s : Session) (dialect : Json.Dialect) (path : String) :
    s.stepOpenCached dialect path =
      match s.cache.fetch s.disk dialect (s.path path) with
      | .error error => (.of (.error (.ofLoad error)), s)
      | .ok (loaded, cache) =>
        (.of (.ok (.cached loaded.file (s.served == some loaded.ticket))),
          { s with cache := cache, served := some loaded.ticket }) := by
  rw [stepOpenCached, Cache.fetch, Path.resolved?]
  by_cases hzero : (s.path path).hasZero = true
  · simp only [hzero, if_true]
    rfl
  · simp only [hzero]
    rfl

/-! ### Events and the past -/

/-- What happens to a cache and the disk below it. -/
inductive Event where
  | fetch (dialect : Json.Dialect) (p : Path)
  | clear
  | change (d : Disk)

/-- What has happened, with the outcome of each fetch. -/
inductive Past where
  | fetched (p : Path) (outcome : Except LoadError Loaded)
  | cleared
  | changed

namespace Past

/-- The object that was fetched, with the path that it was fetched from. -/
def success? : Past → Option (Path × Loaded)
  | fetched p (.ok loaded) => p.resolved?.map (·, loaded)
  | _ => none

/-- Whether the cache was cleared. -/
def isCleared : Past → Bool
  | cleared => true
  | _ => false

/-- The object of the last fetch that succeeded. -/
def latest? (past : List Past) : Option Loaded := (past.findSome? success?).map (·.2)

/-- The last fetch that succeeded since the cache was last cleared. -/
def kept? (past : List Past) : Option (Path × Loaded) :=
  (past.takeWhile fun p => !p.isCleared).findSome? success?

/-- The object of the last fetch that succeeded since the cache was last cleared, if this was of
what the path is resolved to. -/
def remembered? (past : List Past) (p : Path) : Option Loaded :=
  match kept? past with
  | some (key, loaded) => if p.resolved? = some key then some loaded else none
  | none => none

variable {past : List Past} {p key : Path} {loaded : Loaded}

@[simp] theorem kept?_failed (error : LoadError) :
    kept? (.fetched p (.error error) :: past) = kept? past := rfl

@[simp] theorem kept?_cleared : kept? (.cleared :: past) = none := rfl

@[simp] theorem kept?_changed : kept? (.changed :: past) = kept? past := rfl

theorem kept?_fetched (h : p.resolved? = some key) :
    kept? (.fetched p (.ok loaded) :: past) = some (key, loaded) := by
  have hsuccess : success? (.fetched p (.ok loaded)) = some (key, loaded) := by
    rw [success?, h, Option.map_some]
  rw [kept?, List.takeWhile_cons_of_pos rfl, List.findSome?_cons, hsuccess]

/-- The last success since the cache was cleared is the last success of all. -/
theorem latest?_of_kept? (h : kept? past = some (key, loaded)) : latest? past = some loaded := by
  have hall : past.findSome? success? = some (key, loaded) := by
    rw [← List.takeWhile_append_dropWhile (p := fun p => !p.isCleared) (l := past),
      List.findSome?_append, ← kept?, h, Option.some_or]
  rw [latest?, hall, Option.map_some]

theorem remembered?_eq_some :
    remembered? past p = some loaded ↔
      ∃ key, p.resolved? = some key ∧ kept? past = some (key, loaded) := by
  unfold remembered?
  cases kept? past with
  | none => simp
  | some kept =>
      obtain ⟨key, kept⟩ := kept
      simp [and_comm]

end Past

/-- A cache, the disk below it, and what has happened, the latest first. -/
structure World where
  cache : Cache
  disk : Disk
  past : List Past

namespace World

/-- The world before anything happens. -/
def start (d : Disk) : World := ⟨.empty, d, []⟩

/-- The world behind an event. -/
def step (w : World) : Event → World
  | .fetch dialect p =>
    match w.cache.fetch w.disk dialect p with
    | .error error => { w with past := .fetched p (.error error) :: w.past }
    | .ok (loaded, cache) => { w with cache := cache, past := .fetched p (.ok loaded) :: w.past }
  | .clear => { w with cache := w.cache.clear, past := .cleared :: w.past }
  | .change d => { w with disk := d, past := .changed :: w.past }

/-- The world behind a list of events. -/
def after (w : World) (events : List Event) : World := events.foldl step w

/-- The cache keeps the last success of the past since it was cleared, and the ticket of the next
load is none of the past. -/
structure Sound (w : World) : Prop where
  kept : w.cache.kept = Past.kept? w.past
  fresh : ∀ e ∈ w.past, ∀ found ∈ e.success?, found.2.ticket < w.cache.next

theorem start_sound (d : Disk) : (start d).Sound := ⟨rfl, fun _ he => absurd he List.not_mem_nil⟩

section
variable {w : World} {dialect : Json.Dialect} {p key : Path} {loaded : Loaded} {cache : Cache}

/-! ### Fetching in a world -/

theorem find?_eq_some (h : w.Sound) :
    w.cache.find? key = some loaded ↔ Past.kept? w.past = some (key, loaded) := by
  rw [Cache.find?, h.kept]
  cases Past.kept? w.past with
  | none => simp
  | some kept => simp [Prod.ext_iff]

theorem fetch_remembered (h : w.Sound) (hp : Past.remembered? w.past p = some loaded) (d : Disk)
    (dialect : Json.Dialect) : w.cache.fetch d dialect p = .ok (loaded, w.cache) := by
  obtain ⟨key, hkey, hkept⟩ := Past.remembered?_eq_some.mp hp
  rw [Cache.fetch, hkey]
  exact Cache.get_of_find?_some ((find?_eq_some h).mpr hkept)

theorem fetch_forgotten (h : w.Sound) (hp : Past.remembered? w.past p = none) (d : Disk)
    (dialect : Json.Dialect) :
    (w.cache.fetch d dialect p).map (·.1.file) = SourceFile.loadResolved d dialect p := by
  rw [Cache.fetch, SourceFile.loadResolved]
  cases hkey : p.resolved? with
  | none => rfl
  | some key =>
      have hfind : w.cache.find? key = none := by
        rw [Option.eq_none_iff_forall_ne_some]
        intro loaded hfind
        have hsome := Past.remembered?_eq_some.mpr ⟨key, hkey, (find?_eq_some h).mp hfind⟩
        exact nomatch hp.symm.trans hsome
      simp only [Cache.get_of_find?_none hfind]
      cases SourceFile.load d dialect key none <;> rfl

theorem ticket_lt_next (h : w.Sound) (hlatest : Past.latest? w.past = some loaded) :
    loaded.ticket < w.cache.next := by
  obtain ⟨found, hfound, rfl⟩ := Option.map_eq_some_iff.mp hlatest
  obtain ⟨e, he, hsuccess⟩ := List.exists_of_findSome?_eq_some hfound
  exact h.fresh e he found hsuccess

theorem remembered_of_fetch_latest (h : w.Sound)
    (hfetch : w.cache.fetch w.disk dialect p = .ok (loaded, cache))
    (hlatest : Past.latest? w.past = some loaded) : Past.remembered? w.past p = some loaded := by
  obtain ⟨key, hkey, ⟨hfind, _⟩ | ⟨_, hticket, _⟩⟩ := Cache.fetch_eq_ok hfetch
  · exact Past.remembered?_eq_some.mpr ⟨key, hkey, (find?_eq_some h).mp hfind⟩
  · exact absurd hticket (Nat.ne_of_lt (ticket_lt_next h hlatest))

/-! ### One event -/

theorem step_fetch_error {error : LoadError} (h : w.cache.fetch w.disk dialect p = .error error) :
    w.step (.fetch dialect p) = { w with past := .fetched p (.error error) :: w.past } := by
  rw [step, h]

theorem step_fetch_ok (h : w.cache.fetch w.disk dialect p = .ok (loaded, cache)) :
    w.step (.fetch dialect p) =
      { w with cache := cache, past := .fetched p (.ok loaded) :: w.past } := by
  rw [step, h]

/-- **An event keeps the cache in accord with the past.** -/
theorem step_sound (h : w.Sound) (event : Event) : (w.step event).Sound := by
  cases event with
  | clear => exact ⟨Past.kept?_cleared.symm, List.forall_mem_cons.mpr ⟨nofun, h.fresh⟩⟩
  | change d =>
      exact ⟨h.kept.trans Past.kept?_changed.symm, List.forall_mem_cons.mpr ⟨nofun, h.fresh⟩⟩
  | fetch dialect p =>
      cases hfetch : w.cache.fetch w.disk dialect p with
      | error error =>
          rw [step_fetch_error hfetch]
          exact ⟨h.kept.trans (Past.kept?_failed error).symm,
            List.forall_mem_cons.mpr ⟨nofun, h.fresh⟩⟩
      | ok fetched =>
          obtain ⟨loaded, cache⟩ := fetched
          obtain ⟨key, hkey, hcache⟩ := Cache.fetch_eq_ok hfetch
          have hkept : Past.kept? (.fetched p (.ok loaded) :: w.past) = some (key, loaded) :=
            Past.kept?_fetched hkey
          have hsuccess : ∀ found ∈ Past.success? (.fetched p (.ok loaded)), found.2 = loaded := by
            simp [Past.success?, hkey]
          rw [step_fetch_ok hfetch]
          -- Either what was kept is given again, or a new object takes its place.
          rcases hcache with ⟨hfind, rfl⟩ | ⟨_, hticket, rfl⟩
          · have hbefore := (find?_eq_some h).mp hfind
            have hlt := ticket_lt_next h (Past.latest?_of_kept? hbefore)
            refine ⟨h.kept.trans (hbefore.trans hkept.symm), ?_⟩
            refine List.forall_mem_cons.mpr ⟨fun found hfound => ?_, h.fresh⟩
            rwa [hsuccess found hfound]
          · refine ⟨hkept.symm, List.forall_mem_cons.mpr ⟨fun found hfound => ?_, ?_⟩⟩
            · rw [hsuccess found hfound, hticket]
              exact Nat.lt_succ_self _
            · exact fun e he found hfound => Nat.lt_succ_of_lt (h.fresh e he found hfound)

/-- **Whatever happens, the cache is in accord with the past.** -/
theorem after_sound (h : w.Sound) (events : List Event) : (w.after events).Sound := by
  induction events generalizing w with
  | nil => exact h
  | cons event rest ih => exact ih (step_sound h event)

end

/-- **The cache answers by what has happened.**  A fetch gives the object of the last success
exactly when this is remembered for the path, and then whatever the disk holds; otherwise it gives
what the disk holds.  A fetch that fails leaves the cache as it was: what is remembered is still
fetched, even when the disk has changed. -/
theorem fetch_after (d : Disk) (events : List Event) (dialect : Json.Dialect) (p : Path) :
    let w := (start d).after events
    ((∃ loaded cache, w.cache.fetch w.disk dialect p = .ok (loaded, cache) ∧
        Past.latest? w.past = some loaded) ↔ (Past.remembered? w.past p).isSome) ∧
      (∀ loaded ∈ Past.remembered? w.past p, ∀ disk,
        w.cache.fetch disk dialect p = .ok (loaded, w.cache)) ∧
      (Past.remembered? w.past p = none →
        (w.cache.fetch w.disk dialect p).map (·.1.file) =
          SourceFile.loadResolved w.disk dialect p) ∧
      ∀ error, w.cache.fetch w.disk dialect p = .error error →
        (w.step (.fetch dialect p)).cache = w.cache ∧
          ∀ q, ∀ loaded ∈ Past.remembered? w.past q, ∀ disk other,
            ((w.step (.fetch dialect p)).step (.change disk)).cache.fetch disk other q =
              .ok (loaded, w.cache) := by
  intro w
  have hsound : w.Sound := after_sound (start_sound d) events
  refine ⟨⟨?_, ?_⟩, ?_, ?_, ?_⟩
  · rintro ⟨loaded, cache, hfetch, hlatest⟩
    rw [remembered_of_fetch_latest hsound hfetch hlatest]
    rfl
  · intro hsome
    obtain ⟨loaded, hloaded⟩ := Option.isSome_iff_exists.mp hsome
    obtain ⟨key, _, hkept⟩ := Past.remembered?_eq_some.mp hloaded
    exact ⟨loaded, w.cache, fetch_remembered hsound hloaded w.disk dialect,
      Past.latest?_of_kept? hkept⟩
  · exact fun loaded hloaded disk => fetch_remembered hsound hloaded disk dialect
  · exact fun hnone => fetch_forgotten hsound hnone w.disk dialect
  · intro error herror
    rw [step_fetch_error herror]
    exact ⟨rfl, fun q loaded hloaded disk other =>
      fetch_remembered hsound hloaded disk other⟩

/-- A disk with an empty file, which is fetched and then removed. -/
def emptyDisk : Disk := Disk.set (.withDirectory []) ["a"] (.file .empty)

/-- The world in which this has happened. -/
def vanished : World :=
  (start emptyDisk).after [.fetch .strict ⟨.single, ["a"]⟩, .change (.withDirectory [])]

/-- What was fetched. -/
def vanishedFile : Loaded := ⟨0, ⟨some ⟨.single, ["a"]⟩, [], none⟩⟩

theorem fetch_after_vanished :
    (∃ loaded cache, vanished.cache.fetch vanished.disk .strict ⟨.single, ["a"]⟩ =
        .ok (loaded, cache) ∧ Past.latest? vanished.past = some loaded) ∧
      vanished.cache.fetch vanished.disk .strict ⟨.single, ["b", "..", "a"]⟩ =
        .ok (vanishedFile, vanished.cache) ∧
      vanished.cache.fetch vanished.disk .strict ⟨.single, ["b"]⟩ =
        .error (.disk "/b" .missing) ∧
      ∀ disk, (((vanished.step (.fetch .strict ⟨.single, ["b"]⟩)).step (.change disk)).cache.fetch
        disk .lenient ⟨.single, ["a"]⟩) = .ok (vanishedFile, vanished.cache) := by
  have hresolved : Past.remembered? vanished.past ⟨.single, ["b", "..", "a"]⟩ =
      some vanishedFile := rfl
  have hremembered : Past.remembered? vanished.past ⟨.single, ["a"]⟩ = some vanishedFile := rfl
  have hforgotten : Past.remembered? vanished.past ⟨.single, ["b"]⟩ = none := rfl
  have hload : SourceFile.loadResolved vanished.disk .strict ⟨.single, ["b"]⟩ =
      .error (.disk "/b" .missing) := rfl
  let events : List Event := [.fetch .strict ⟨.single, ["a"]⟩, .change (.withDirectory [])]
  obtain ⟨hlatest, -, -, -⟩ := fetch_after emptyDisk events .strict ⟨.single, ["a"]⟩
  obtain ⟨-, hkept, -, -⟩ := fetch_after emptyDisk events .strict ⟨.single, ["b", "..", "a"]⟩
  obtain ⟨-, -, hloaded, hfailed⟩ := fetch_after emptyDisk events .strict ⟨.single, ["b"]⟩
  have herror := map_eq_error.mp ((hloaded hforgotten).trans hload)
  refine ⟨hlatest.mpr (Option.isSome_iff_exists.mpr ⟨_, hremembered⟩), hkept _ hresolved _,
    herror, fun disk => ?_⟩
  exact (hfailed _ herror).2 _ _ hremembered disk .lenient

end World

end TracedText
