import SpillStorage.Offset

/-!
A segment is one contiguous range `[position, position + size)` of an address space. The tests are
half-open: two segments touch when one starts where the other finishes, and share no byte then.

Correspondence:
  `Segment::end`                         ↔ `finish`
  `Segment::contains`, `Segment::covers` ↔ `contains`, `covers`
  `Segment::overlaps`                    ↔ `overlaps`
  `Segment::is_adjacent`                 ↔ `touches`
  `Segment::coalesce`                    ↔ `join?`
-/

namespace SpillStorage

structure Segment where
  position : Nat
  size : Nat
  deriving DecidableEq, Repr

namespace Segment

/-- One past the last byte. -/
def finish (s : Segment) : Nat := s.position + s.size

/-- The segment holds the byte at `offset`. -/
def contains (s : Segment) (offset : Nat) : Bool :=
  decide (s.position ≤ offset) && decide (offset < s.finish)

/-- The range `[offset, offset + size)` lies inside the segment. -/
def covers (s : Segment) (offset size : Nat) : Bool :=
  decide (s.position ≤ offset) &&
    match Offset.sum? offset size with
    | some last => decide (last ≤ s.finish)
    | none => false

/-- The segment shares a byte with `[offset, offset + size)`. -/
def overlaps (s : Segment) (offset size : Nat) : Bool :=
  decide (0 < size) && decide (0 < s.size) && decide (offset < s.finish) &&
    decide (s.position < offset + size)

/-- One segment starts where the other finishes. -/
def touches (s t : Segment) : Bool :=
  decide (s.finish = t.position) || decide (t.finish = s.position)

/-- The union of two touching segments. -/
def join? (s t : Segment) : Option Segment :=
  if s.touches t then some ⟨min s.position t.position, s.size + t.size⟩ else none

end Segment

end SpillStorage
