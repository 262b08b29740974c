import SpillStorage.Failure
import SpillStorage.Segment
import SpillStorage.Index

/-!
The pool of free segments. Segments stand in slots; one index lists the slots by the position of
their segment, another stacks them by its size. Allocation takes the smallest segment that fits
and, among equals, the one put in last. Release joins a range with the free segments that it
touches, so no two segments ever touch. The fields are open: `Pool/Audit` judges any pool,
whatever its history. Sums and differences are those of natural numbers; `Proofs/Pool/Checked` says
that in a sound pool none of them leaves the range of offsets.

Correspondence:
  `FreeSpaceAllocator`, `SegmentId`          ↔ `Pool`, the number of a slot
  `FreeSpaceAllocator::allocate`             ↔ `allocate`, from the slot that `bestFit` picks
  `FreeSpaceAllocator::release`              ↔ `release`, with `clashes` and `absorb` for each side
  `FreeSpaceAllocator::take_range`           ↔ `take`
  `FreeSpaceAllocator::free_segments`        ↔ `segments`
  `FreeSpaceAllocator::segment_count`        ↔ `count`
  `FreeSpaceAllocator::largest_free`         ↔ `largest`
  `FreeSpaceAllocator::get`                  ↔ `segmentAt`
  `FreeSpaceAllocator::neighbour_before`     ↔ `neighbourBefore`
  `FreeSpaceAllocator::neighbour_from`       ↔ `neighbourFrom`
  `FreeSpaceAllocator::segment_at_or_before` ↔ `atOrBefore`
  `FreeSpaceAllocator::insert`, `remove`     ↔ `insert`, `remove`
-/

namespace SpillStorage

structure Pool where
  /-- Segments by slot; an empty slot waits for reuse. -/
  slots : List (Option Segment)
  /-- The empty slots, the last emptied first. -/
  vacant : List Nat
  /-- Occupied slots by the position of their segment. -/
  byPosition : Index Nat
  /-- Occupied slots by the size of their segment, the last filled first. -/
  bySize : Index (List Nat)
  /-- The sum of the sizes of the free segments. -/
  freeBytes : Nat
  deriving DecidableEq

namespace Pool

def empty : Pool := ⟨[], [], .empty, .empty, 0⟩

/-- The segment in a slot. -/
def segmentAt (p : Pool) (slot : Nat) : Option Segment := (p.slots[slot]?).join

/-- The free segments by increasing position. -/
def segments (p : Pool) : List Segment := p.byPosition.values.filterMap p.segmentAt

/-- The number of free segments. -/
def count (p : Pool) : Nat := p.byPosition.size

/-- The size of the largest free segment, 0 if there is none. -/
def largest (p : Pool) : Nat := p.bySize.lastKey?.getD 0

/-- The slots that hold segments of one size, the last filled first. -/
def stack (p : Pool) (size : Nat) : List Nat := (p.bySize.get? size).getD []

/-- Puts a segment into the last emptied slot, or into a new one. -/
def insert (p : Pool) (segment : Segment) : Pool :=
  let (slot, slots, vacant) :=
    match p.vacant with
    | slot :: rest => (slot, p.slots.set slot (some segment), rest)
    | [] => (p.slots.length, p.slots ++ [some segment], [])
  { slots := slots
    vacant := vacant
    byPosition := p.byPosition.insert segment.position slot
    bySize := p.bySize.insert segment.size (slot :: p.stack segment.size)
    freeBytes := p.freeBytes + segment.size }

/-- Empties a slot; a size without slots leaves the index. -/
def remove (p : Pool) (slot : Nat) : Pool :=
  match p.segmentAt slot with
  | none => p
  | some segment =>
    let stack := (p.stack segment.size).erase slot
    { slots := p.slots.set slot none
      vacant := slot :: p.vacant
      byPosition := p.byPosition.erase segment.position
      bySize :=
        if stack.isEmpty then p.bySize.erase segment.size
        else p.bySize.insert segment.size stack
      freeBytes := p.freeBytes - segment.size }

/-- The slot and the segment of a position entry, if the slot is occupied. -/
def occupied (p : Pool) (entry : Nat × Nat) : Option (Nat × Segment) :=
  (p.segmentAt entry.2).map fun segment => (entry.2, segment)

/-- The last segment that starts before `offset`. -/
def neighbourBefore (p : Pool) (offset : Nat) : Option (Nat × Segment) :=
  (p.byPosition.lastBefore offset).bind p.occupied

/-- The first segment that starts at or after `offset`. -/
def neighbourFrom (p : Pool) (offset : Nat) : Option (Nat × Segment) :=
  (p.byPosition.firstFrom offset).bind p.occupied

/-- The last segment that starts at or before `offset`. -/
def atOrBefore (p : Pool) (offset : Nat) : Option (Nat × Segment) :=
  (p.byPosition.lastUpTo offset).bind p.occupied

/-- The slot that serves a request: the last filled one of the least size that fits. -/
def bestFit (p : Pool) (size : Nat) : Option Nat :=
  (p.bySize.firstFrom size).bind fun entry => entry.2.head?

/-- Takes `size` bytes from the head of the best fit; its tail stays free. -/
def allocate (p : Pool) (size : Nat) : Option (Nat × Pool) :=
  if size = 0 then none
  else do
    let slot ← p.bestFit size
    let segment ← p.segmentAt slot
    let rest := p.remove slot
    return (segment.position,
      if size < segment.size then rest.insert ⟨segment.position + size, segment.size - size⟩
      else rest)

/-- The pool without a neighbour that touches `segment`, and the segment joined with it. -/
def absorb (p : Pool) (segment : Segment) (neighbour : Option (Nat × Segment)) :
    Pool × Segment :=
  match neighbour with
  | none => (p, segment)
  | some (slot, other) =>
    match other.join? segment with
    | none => (p, segment)
    | some joined => (p.remove slot, joined)

/-- A neighbour shares bytes with the range. -/
def clashes (neighbour : Option (Nat × Segment)) (offset size : Nat) : Bool :=
  match neighbour with
  | none => false
  | some (_, segment) => segment.overlaps offset size

/-- Frees `[offset, offset + size)`, joined with the free segments that it touches. An empty range,
one that leaves the range of offsets, and one that shares bytes with a free segment are refused. -/
def release (p : Pool) (offset size : Nat) : Except Failure Pool :=
  if size = 0 ∨ Offset.sum? offset size = none then .error (.invalidRange offset size)
  else
    let before := p.neighbourBefore offset
    let after := p.neighbourFrom offset
    if clashes before offset size || clashes after offset size then
      .error (.invalidRange offset size)
    else
      let (p₁, joined) := p.absorb ⟨offset, size⟩ before
      let (p₂, merged) := p₁.absorb joined after
      .ok (p₂.insert merged)

/-- Takes `[offset, offset + size)` out of the one free segment that covers it; the parts before and
after stay free. -/
def take (p : Pool) (offset size : Nat) : Except Failure Pool :=
  if size = 0 then .ok p
  else
    match p.atOrBefore offset with
    | none => .error (.invalidRange offset size)
    | some (slot, segment) =>
      if segment.covers offset size then
        let rest := p.remove slot
        let withHead :=
          if segment.position < offset then
            rest.insert ⟨segment.position, offset - segment.position⟩
          else rest
        .ok (if offset + size < segment.finish then
            withHead.insert ⟨offset + size, segment.finish - (offset + size)⟩
          else withHead)
      else .error (.invalidRange offset size)

end Pool

end SpillStorage
