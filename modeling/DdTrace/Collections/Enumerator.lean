import DdTrace.Collections.GrowingCollection
import Mathlib.Data.List.Perm.Subperm

/-!
# GrowingCollection: the enumerator

An enumerator goes down the segments from the head that it has read, and through each of them
from its last slot to its first. Its steps are the reads of what it shares with the `Add` calls;
a slot that is counted may still be without its item.
-/

namespace DdTrace.Collections

open Lib

/-- Where the caller of `GetEnumerator` is. -/
inductive EnumeratorPc where
  /-- `_dataHead` -/
  | getEnumerator
  /-- `head.LocalCount` -/
  | localCount
  /-- `_head.NextSegment.GlobalCount` -/
  | nextGlobalCount
  | moveNext
  /-- The check of the index in `Current`. -/
  | checkIndex
  /-- `_data[index]` -/
  | readItem
  /-- `MoveNext` has returned `false`. -/
  | finished
  | threw
  deriving DecidableEq, Repr

structure Enumerator (α : Type) where
  pc : EnumeratorPc
  head : ℕ
  headOffset : ℤ
  count : ℤ
  currentSegment : ℕ
  currentSegmentOffset : ℤ
  /-- What `Current` has returned, once after each `MoveNext`. -/
  yielded : List α

/-- `head.NextSegment == null ? 0 : head.NextSegment.GlobalCount` -/
def GrowingCollection.nextGlobalCount {α : Type} (s : GrowingCollection α) (head : ℕ) : ℤ :=
  match (s.segments head).nextSegment with
  | none => 0
  | some next => (s.segments next).globalCount

namespace Enumerator

variable {α : Type}

/-- Before the call of `GetEnumerator`. -/
def start : Enumerator α := ⟨.getEnumerator, 0, 0, 0, 0, 0, []⟩

def moveNext (e : Enumerator α) (s : GrowingCollection α) : Enumerator α :=
  if e.currentSegmentOffset = 0 then
    match (s.segments e.currentSegment).nextSegment with
    | none => { e with pc := .finished }
    | some next =>
      { e with
        pc := .checkIndex
        currentSegment := next
        currentSegmentOffset := (s.segments next).localCountOf - 1 }
  else { e with pc := .checkIndex, currentSegmentOffset := e.currentSegmentOffset - 1 }

def checkIndex (e : Enumerator α) (s : GrowingCollection α) : Enumerator α :=
  let segment := s.segments e.currentSegment
  let index := e.currentSegmentOffset
  if index < 0 ∨ segment.localCount ≤ index ∨ segment.segmentSize ≤ index then
    { e with pc := .threw }
  else { e with pc := .readItem }

def readItem (e : Enumerator α) (s : GrowingCollection α) : Enumerator α :=
  match (s.segments e.currentSegment).data[e.currentSegmentOffset.toNat]? with
  | none => { e with pc := .threw }
  | some item => { e with pc := .moveNext, yielded := e.yielded ++ [item] }

/-- The next step of the enumeration. -/
def step (e : Enumerator α) (s : GrowingCollection α) : Option (Enumerator α) :=
  match e.pc with
  | .getEnumerator =>
    some { e with pc := .localCount, head := s.dataHead, currentSegment := s.dataHead }
  | .localCount =>
    let offset := (s.segments e.head).localCountOf
    some { e with pc := .nextGlobalCount, headOffset := offset, currentSegmentOffset := offset }
  | .nextGlobalCount =>
    some { e with pc := .moveNext, count := int32 (e.headOffset + s.nextGlobalCount e.head) }
  | .moveNext => some (e.moveNext s)
  | .checkIndex => some (e.checkIndex s)
  | .readItem => some (e.readItem s)
  | .finished | .threw => none

end Enumerator

namespace GrowingCollection

variable {α : Type}

inductive EnumerationLabel (α : Type) where
  | add (l : Label α)
  | enumerate

/-- `Add` calls and an enumerator. -/
def enumerationStep [Inhabited α] (p : GrowingCollection α × Enumerator α) :
    EnumerationLabel α → Option (GrowingCollection α × Enumerator α)
  | .add l => (p.1.step l).map fun t => (t, p.2)
  | .enumerate => (p.2.step p.1).map fun e => (p.1, e)

/-- The items of the calls that have returned. -/
def returnedItems (s : GrowingCollection α) : List α :=
  s.calls.filterMap fun c => match c.pc with
    | .returned _ _ => some c.item
    | _ => none

/-- What an enumeration, created in the first state, promises in the second one. -/
structure Resilient (s₁ s₂ : GrowingCollection α) (e : Enumerator α) : Prop where
  not_threw : e.pc ≠ .threw
  /-- Nothing is yielded that was not added, and nothing twice. -/
  started : e.yielded.Subperm (s₂.calls.map AddCall.item)
  returned : e.pc = .finished → s₁.returnedItems.Subperm e.yielded
  counted : e.pc = .finished → e.count = e.yielded.length

/-- A slot is read when its item is there, and the count is taken of no more than `bound` items. -/
def Settled (bound : ℕ) (p : GrowingCollection α × Enumerator α) : EnumerationLabel α → Prop
  | .add _ => True
  | .enumerate => match p.2.pc with
    | .nextGlobalCount => p.1.calls.length ≤ bound
    | .readItem => ∀ c ∈ p.1.calls,
      c.pc ≠ .store p.2.currentSegment p.2.currentSegmentOffset.toNat
    | _ => True

theorem settled_enumerate_iff {bound : ℕ} {p : GrowingCollection α × Enumerator α} :
    Settled bound p .enumerate ↔
      (p.2.pc = .nextGlobalCount → p.1.calls.length ≤ bound) ∧
        (p.2.pc = .readItem → ∀ c ∈ p.1.calls,
          c.pc ≠ .store p.2.currentSegment p.2.currentSegmentOffset.toNat) := by
  unfold Settled
  dsimp only
  cases p.2.pc <;> simp

instance (bound : ℕ) (p : GrowingCollection α × Enumerator α) (l : EnumerationLabel α) :
    Decidable (Settled bound p l) :=
  match l with
  | .add _ => .isTrue trivial
  | .enumerate => decidable_of_iff _ settled_enumerate_iff.symm

end GrowingCollection

end DdTrace.Collections
