import TracedText.Session.Basic

/-! # Running sessions

`Session.run` takes a session through a list of steps. A step that fails says so, and the session
keeps what it has changed before: the disk what was written, and a buffer what was deleted. -/

namespace TracedText

/-- What a step gives or how it fails, and the warnings it has. -/
structure Answer where
  outcome : Except Failure Reply
  warnings : List Warning

namespace Answer

/-- The answer without warnings. -/
def of (outcome : Except Failure Reply) : Answer := ⟨outcome, []⟩

end Answer

namespace Session
variable (s : Session)

/-- The outcome of an operation that gives nothing but a new buffer under the name. -/
def updated (name : String) (result : Except Failure Buffer) : Answer × Session :=
  match result with
  | .ok b => (.of (.ok .nothing), s.setBuffer name b)
  | .error failure => (.of (.error failure), s)

/-- The outcome of an operation that changes nothing. -/
def observed (result : Except Failure Reply) : Answer × Session := (.of result, s)

/-- The outcome of an operation that changes the disk. -/
def written (result : Except Failure Reply × Disk) : Answer × Session :=
  (.of result.1, { s with disk := result.2 })

/-- Stores a part of a buffer under a name. -/
def stepSlice (name target : String) (start stop : Int) : Answer × Session :=
  match s.buffer name with
  | .error failure => (.of (.error failure), s)
  | .ok b =>
    match b.slice start stop with
    | .error error => (.of (.error (.range error)), s)
    | .ok part => (.of (.ok (.buffer part)), s.setBuffer target part)

/-- Deletes a batch of ranges from a buffer, which keeps what a batch that fails has made of it. -/
def stepDeleteAll (name : String) (ranges : List (Int × Int)) (base : Int) : Answer × Session :=
  let given : Except Failure (Buffer × List Deletion) := do
    return (← s.buffer name, ← (Deletion.ofRanges ranges).mapError .range)
  match given with
  | .error failure => (.of (.error failure), s)
  | .ok (b, batch) =>
    match b.deleteAll base batch with
    | .error (error, left) => (.of (.error (.ofBatch error)), s.setBuffer name left)
    | .ok c => (.of (.ok (.count batch.length)), s.setBuffer name c)

/-- Deletes a range widened to whole lines from a buffer. -/
def stepDeleteExtent (name : String) (start stop : Int) : Answer × Session :=
  let result : Except Failure ((Int × Int) × Buffer) := do
    let b ← s.buffer name
    let extent ← (b.text.lineExtent start stop).mapError .position
    return (extent, ← (b.delete extent.1 (extent.2 - extent.1)).mapError .range)
  match result with
  | .error failure => (.of (.error failure), s)
  | .ok (extent, b) => (.of (.ok (.extent extent.1 extent.2)), s.setBuffer name b)

/-- Saves a buffer. -/
def stepSave (dialect : Json.Dialect) (name path : String) (pretty : Bool) : Answer × Session :=
  match s.buffer name with
  | .error failure => (.of (.error failure), s)
  | .ok b =>
    let p := s.path path
    let (result, disk) := b.save s.medium s.disk dialect pretty p
    (⟨(result.map fun files => .files files.1 files.2).mapError .ofSave, b.saveWarnings p⟩,
      { s with disk := disk })

/-- Loads a buffer. -/
def stepLoad (dialect : Json.Dialect) (name path : String) : Answer × Session :=
  match Buffer.load s.disk dialect (s.path path) with
  | .error error => (.of (.error (.ofLoad error)), s)
  | .ok (b, warnings) => (⟨.ok .nothing, warnings⟩, s.setBuffer name b)

/-- Opens a source file through the cache. -/
def stepOpenCached (dialect : Json.Dialect) (path : String) : Answer × Session :=
  let p := s.path path
  if p.hasZero then (.of (.error (.disk .zeroInPath)), s)
  else
    match s.cache.get s.disk dialect p.resolve with
    | .error error => (.of (.error (.ofLoad error)), s)
    | .ok (loaded, cache) =>
      (.of (.ok (.cached loaded.file (s.served == some loaded.ticket))),
        { s with cache := cache, served := some loaded.ticket })

/-- One step. -/
def step (step : Step) : Answer × Session :=
  let name := step.name
  match step.action with
  | .create text points => s.updated name ((Buffer.ofPoints text points).mapError .range)
  | .createUnchecked text points => s.updated name (.ok ⟨text, points⟩)
  | .splice offset count value => s.updated name do
      (((← s.buffer name).splice offset count (← s.insertion value))).mapError .ofSplice
  | .insert offset value => s.updated name do
      ((← s.buffer name).insert offset (← s.insertion value)).mapError .ofSplice
  | .delete offset count => s.updated name do
      ((← s.buffer name).delete offset count).mapError .range
  | .append value => s.updated name do
      ((← s.buffer name).append (← s.insertion value)).mapError .ofSplice
  | .slice start stop target => s.stepSlice name target start stop
  | .deleteAll ranges base => s.stepDeleteAll name ranges base
  | .deleteExtent start stop => s.stepDeleteExtent name start stop
  | .describe => s.observed ((s.buffer name).map fun b => .sizes b.text.length b.describe)
  | .toDocument file =>
    match s.buffer name with
    | .error failure => s.observed (.error failure)
    | .ok b =>
      (⟨((b.toDocument file).map .document).mapError .ofTrace, b.orderWarnings file⟩, s)
  | .save path pretty => s.stepSave step.dialect name path pretty
  | .load path => s.stepLoad step.dialect name path
  | .loadEntries path =>
    s.observed (((TracedText.loadEntries s.disk step.dialect (s.path path)).map .entries).mapError
      .ofLoad)
  | .openSource path map =>
    s.observed (((SourceFile.load s.disk step.dialect (s.path path) (map.map s.path)).map
      .source).mapError .ofLoad)
  | .openCached path => s.stepOpenCached step.dialect path
  | .clearCache => (.of (.ok .nothing), { s with cache := s.cache.clear })
  | .writeBytes path bytes =>
    let (result, disk) := s.medium.write .disk s.disk (s.path path) (.ok bytes)
    s.written (result.map fun _ => .nothing, disk)
  | .readText path =>
    s.observed (((loadText s.disk (s.path path)).map .text).mapError .ofLoad)
  | .readBytes path => s.observed (((s.disk.read (s.path path)).map .bytes).mapError .disk)

/-- The answers of a list of steps, each with the session behind it. -/
def run (s : Session) : List Step → List (Answer × Session)
  | [] => []
  | step :: rest =>
    let next := s.step step
    next :: next.2.run rest

end Session

end TracedText
