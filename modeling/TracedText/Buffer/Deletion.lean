import TracedText.Buffer.Basic

/-! # Batches of deletions

A batch is a list of ranges to delete from one buffer, all in the offsets of the text before any of
them is deleted. `Deletion.plan` puts a batch in order from the back of the text to its front and
refuses ranges that overlap; ranges that touch do not. `Buffer.deleteAll` applies a plan in this
order, so that each range is still in place when its turn comes, and changes nothing unless every
range lies in the buffer. -/

namespace TracedText

/-- A range to delete, from `start` up to `stop`. -/
structure Deletion where
  start : Nat
  stop : Nat
  start_le_stop : start ≤ stop
deriving DecidableEq, Repr

/-- Two ranges of a batch that overlap, the one further back in the text being `behind`. -/
structure Overlap where
  front : Deletion
  behind : Deletion
deriving DecidableEq, Repr

/-- What the failure is told as. -/
def Overlap.message (o : Overlap) : Message :=
  ["Deletion [", o.front.start, ", ", o.front.stop, ") overlaps [", o.behind.start, ", ",
    o.behind.stop, ")"]

namespace Deletion

/-- The range between two bounds that are in order and not in front of the text. -/
def ofBounds (start stop : Int) : Except RangeError Deletion :=
  if _ : start < 0 then .error (.deletionStart start)
  else if _ : stop < start then .error (.deletionEnd start stop)
  else .ok ⟨start.toNat, stop.toNat, by omega⟩

/-- The ranges of the bounds in order, if all are ranges. -/
def ofRanges (ranges : List (Int × Int)) : Except RangeError (List Deletion) :=
  ranges.mapM fun range => ofBounds range.1 range.2

/-- The number of characters in the range. -/
def length (d : Deletion) : Nat := d.stop - d.start

/-- The first range is not in front of the second, by start and then by stop. -/
def notBefore (d e : Deletion) : Bool :=
  e.start < d.start || (d.start == e.start && e.stop ≤ d.stop)

/-- The first two neighbours that overlap, in a list ordered from the back to the front. -/
def overlap? : List Deletion → Option Overlap
  | d :: e :: rest => if d.start < e.stop then some ⟨e, d⟩ else overlap? (e :: rest)
  | _ => none

/-- The batch ordered from the back of the text to its front, unless two ranges overlap. -/
def plan (batch : List Deletion) : Except Overlap (List Deletion) :=
  let ordered := batch.mergeSort notBefore
  match overlap? ordered with
  | some found => .error found
  | none => .ok ordered

end Deletion

/-- The ways in which a batch fails. -/
inductive BatchError where
  | overlap (found : Overlap)
  | range (error : RangeError)
deriving DecidableEq, Repr

/-- What the failure is told as. -/
def BatchError.message : BatchError → Message
  | .overlap found => found.message
  | .range error => error.message

namespace Buffer
variable (b : Buffer) (base : Int)

/-- The range lies in the buffer, whose text starts at `base`. -/
def covers (d : Deletion) : Bool := 0 ≤ d.start - base && d.stop - base ≤ b.text.length

/-- The buffer without the ranges, deleted one after the other. When a deletion fails, the buffer is
left without the ranges before it. -/
def deleteEach (b : Buffer) : List Deletion → Except (RangeError × Buffer) Buffer
  | [] => .ok b
  | d :: rest =>
    match b.delete (d.start - base) d.length with
    | .error error => .error (error, b)
    | .ok next => next.deleteEach rest

/-- The buffer without the ranges of a batch; the text of the buffer starts at `base`. A batch that
fails tells what it has made of the buffer. -/
def deleteAll (batch : List Deletion) : Except (BatchError × Buffer) Buffer :=
  match Deletion.plan batch with
  | .error found => .error (.overlap found, b)
  | .ok ordered =>
    match ordered.find? fun d => !b.covers base d with
    | some d => .error (.range (.deletionOutside d.start d.stop base b.text.length), b)
    | none => (b.deleteEach base ordered).mapError fun failed => (.range failed.1, failed.2)

end Buffer

end TracedText
