import DdTrace.Lib.Bytes
import DdTrace.Lib.Run
import DdTrace.Lib.Tickets

/-!
# GrowingCollection: adding

The segments of a `GrowingCollection<T>` on a heap, and the `Add` calls on it, each at some point
of its code. A step is one access to what the calls share: a read of the head, an interlocked
operation, a store into an array, the read of a count. References are numbers; the collection
itself is the segment 0. `_localCount` exceeds the segment size by no more than the number of
threads in `TryAdd`; the counts of items over all segments are 32-bit.
-/

namespace DdTrace.Collections

open Lib

structure GrowingCollectionSegment (α : Type) where
  nextSegment : Option ℕ
  segmentSize : ℕ
  nextSegmentGlobalCount : ℤ
  data : List α
  localCount : ℕ

/-- Where an `Add` call is. -/
inductive Pc where
  /-- `Volatile.Read(ref _dataHead)` -/
  | readHead
  /-- `Interlocked.Increment(ref _localCount)` of a segment -/
  | increment (segment currHead : ℕ)
  /-- `_data[index] = item` -/
  | store (segment index : ℕ)
  /-- `Interlocked.Decrement(ref _localCount)` -/
  | decrement (segment currHead : ℕ)
  /-- `new GrowingCollectionSegment<T>(currHead)` -/
  | newSegment (currHead : ℕ)
  /-- The compare-exchange inside `CompareExchangeResult`, whose result is not used. -/
  | compareExchangeResult (currHead newHead : ℕ)
  /-- `updatedHead = Interlocked.CompareExchange(ref _dataHead, newHead, currHead)` -/
  | compareExchange (currHead newHead : ℕ)
  /-- It has returned; its item was stored in the slot. -/
  | returned (segment index : ℕ)
  deriving DecidableEq, Repr

structure AddCall (α : Type) where
  item : α
  pc : Pc
  deriving DecidableEq

/-- The segments that are on the heap have the references below `allocated`. -/
structure GrowingCollection (α : Type) where
  segments : ℕ → GrowingCollectionSegment α
  allocated : ℕ
  dataHead : ℕ
  calls : List (AddCall α)

namespace GrowingCollectionSegment

variable {α : Type}

def localCountOf (segment : GrowingCollectionSegment α) : ℕ :=
  min segment.localCount segment.segmentSize

def globalCount (segment : GrowingCollectionSegment α) : ℤ :=
  int32 (segment.localCountOf + segment.nextSegmentGlobalCount)

variable [Inhabited α]

/-- The constructor with a size, without the check. -/
def ofSize (segmentSize : ℕ) : GrowingCollectionSegment α where
  nextSegment := none
  segmentSize := segmentSize
  nextSegmentGlobalCount := 0
  data := List.replicate segmentSize default
  localCount := 0

/-- The constructor with the next segment, whose count is read. -/
def above (reference : ℕ) (nextSegment : GrowingCollectionSegment α) :
    GrowingCollectionSegment α where
  nextSegment := some reference
  segmentSize := nextSegment.segmentSize
  nextSegmentGlobalCount := nextSegment.globalCount
  data := List.replicate nextSegment.segmentSize default
  localCount := 0

end GrowingCollectionSegment

namespace GrowingCollection

variable {α : Type}

/-- `GrowingCollection(segmentSize)`, `none` where the constructor throws. -/
def new [Inhabited α] (segmentSize : Int32) : Option (GrowingCollection α) :=
  if segmentSize < 1 ∨ 1024 < segmentSize then none
  else some ⟨fun _ => .ofSize segmentSize.toNatClampNeg, 1, 0, []⟩

/-- `Count` -/
def count (s : GrowingCollection α) : ℤ := (s.segments s.dataHead).globalCount

/-- The call goes on. -/
def goto (s : GrowingCollection α) (i : ℕ) (c : AddCall α) (pc : Pc) : GrowingCollection α :=
  { s with calls := s.calls.set i { c with pc := pc } }

def setSegment (s : GrowingCollection α) (reference : ℕ) (segment : GrowingCollectionSegment α) :
    GrowingCollection α :=
  { s with segments := Function.update s.segments reference segment }

def setLocalCount (s : GrowingCollection α) (reference n : ℕ) : GrowingCollection α :=
  s.setSegment reference { s.segments reference with localCount := n }

def setData (s : GrowingCollection α) (reference : ℕ) (data : List α) : GrowingCollection α :=
  s.setSegment reference { s.segments reference with data := data }

/-- A new object on the heap. -/
def allocate (s : GrowingCollection α) (segment : GrowingCollectionSegment α) :
    GrowingCollection α :=
  { s.setSegment s.allocated segment with allocated := s.allocated + 1 }

/-- `Interlocked.CompareExchange(ref _dataHead, newHead, currHead)` -/
def exchange (s : GrowingCollection α) (newHead currHead : ℕ) : GrowingCollection α :=
  { s with dataHead := if s.dataHead = currHead then newHead else s.dataHead }

inductive Label (α : Type) where
  /-- A thread calls `Add`. -/
  | call (item : α)
  /-- The call does its next step. -/
  | step (i : ℕ)

/-- The next step of a call. -/
def stepCall [Inhabited α] (s : GrowingCollection α) (i : ℕ) (c : AddCall α) :
    Option (GrowingCollection α) :=
  match c.pc with
  | .readHead => some (s.goto i c (.increment s.dataHead s.dataHead))
  | .increment segment currHead =>
    let index := (s.segments segment).localCount
    let t := s.setLocalCount segment (index + 1)
    if (s.segments segment).segmentSize ≤ index then some (t.goto i c (.decrement segment currHead))
    else some (t.goto i c (.store segment index))
  | .store segment index =>
    let t := s.setData segment ((s.segments segment).data.set index c.item)
    some (t.goto i c (.returned segment index))
  | .decrement segment currHead =>
    let t := s.setLocalCount segment ((s.segments segment).localCount - 1)
    some (t.goto i c (.newSegment currHead))
  | .newSegment currHead =>
    let newHead := s.allocated
    let t := s.allocate (.above currHead (s.segments currHead))
    some (t.goto i c (.compareExchangeResult currHead newHead))
  | .compareExchangeResult currHead newHead =>
    some ((s.exchange newHead currHead).goto i c (.compareExchange currHead newHead))
  | .compareExchange currHead newHead =>
    let updatedHead := s.dataHead
    some ((s.exchange newHead currHead).goto i c (.increment updatedHead currHead))
  | .returned _ _ => none

def step [Inhabited α] (s : GrowingCollection α) : Label α → Option (GrowingCollection α)
  | .call item => some { s with calls := s.calls ++ [⟨item, .readHead⟩] }
  | .step i => s.calls[i]?.bind (s.stepCall i)

end GrowingCollection

end DdTrace.Collections
