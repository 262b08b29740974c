import SpillStorage.Space

/-!
Batches: many regions at once, each between a least and a greatest size. The preferred size is an
even share of the free bytes, kept within the bounds. Free segments that hold it are carved first,
in order, where possible at places that lie in memory; then smaller segments give what they have;
what is still missing is grown in one piece. A growth that fails returns what was carved.

Correspondence:
  `BatchSegment`                 ↔ `Region`
  `ScratchSpace::allocate_batch` ↔ `allocateBatch`
  its preferred size             ↔ `preferredSize`
  its loop over the candidates   ↔ `carveEach` with `carveWhole`
  its loop over the leftovers    ↔ `carveEach` with `carveRest`
  its growth, and the way back   ↔ `completeBatch`, `returnRegions`
-/

namespace SpillStorage

/-- One region of a batch. -/
structure Region where
  offset : Nat
  size : Nat
  deriving DecidableEq, Repr

namespace Space

/-- The regions taken so far, in order, and the pool without them. -/
structure Carving where
  free : Pool
  regions : Array Region

/-- Takes one region out of the pool. -/
def Carving.take (c : Carving) (offset size : Nat) : Outcome Carving Unit :=
  match c.free.take offset size with
  | .ok free => .ok ⟨free, c.regions.push ⟨offset, size⟩⟩ ()
  | .error f => .fail c f

/-- Carves regions of the preferred size out of `[start, limit)`, at most `wanted` of them. -/
def carveWhole (chain : Chain) (size limit : Nat) : Nat → Nat → Carving → Outcome Carving Unit
  | 0, _, c => .ok c ()
  | wanted + 1, start, c =>
    if start + size ≤ limit then
      let place := (chain.findMemory? start limit size).getD start
      (c.take place size).andThen fun c () =>
        carveWhole chain size limit wanted (place + size) c
    else .ok c ()

/-- Carves what is left of `[start, limit)` into regions of at least `least` and at most `greatest`
bytes, at most `wanted` of them. -/
def carveRest (least greatest limit : Nat) : Nat → Nat → Carving → Outcome Carving Unit
  | 0, _, c => .ok c ()
  | wanted + 1, start, c =>
    if least ≤ limit - start then
      let size := min (limit - start) greatest
      (c.take start size).andThen fun c () =>
        carveRest least greatest limit wanted (start + size) c
    else .ok c ()

/-- Carves segment by segment, until `count` regions are taken. -/
def carveEach (count : Nat) (carve : Segment → Nat → Carving → Outcome Carving Unit) :
    List Segment → Carving → Outcome Carving Unit
  | [], c => .ok c ()
  | segment :: rest, c =>
    (carve segment (count - c.regions.size) c).andThen fun c () =>
      carveEach count carve rest c

/-- The segments of at least `size` bytes. -/
def segmentsFrom (free : Pool) (size : Nat) : List Segment :=
  free.segments.filter fun segment => decide (size ≤ segment.size)

/-- Carves `count` regions out of the pool, or as many as it has. -/
def carve (chain : Chain) (free : Pool) (count size least greatest : Nat) :
    Outcome Carving Unit :=
  (carveEach count (fun segment wanted => carveWhole chain size segment.finish wanted
    segment.position) (segmentsFrom free size) ⟨free, #[]⟩).andThen fun c () =>
    if c.regions.size < count then
      carveEach count (fun segment wanted => carveRest least greatest segment.finish wanted
        segment.position) (segmentsFrom c.free least) c
    else .ok c ()

/-- Returns regions to the pool. -/
def returnRegions (free : Pool) : List Region → Outcome Pool Unit
  | [] => .ok free ()
  | region :: rest =>
    match free.release region.offset region.size with
    | .ok free => returnRegions free rest
    | .error f => .fail free f

/-- `count` neighbouring regions of one size. -/
def tail (start size count : Nat) : List Region :=
  (List.range count).map fun i => ⟨start + i * size, size⟩

/-- The preferred size of a region: an even share of the free bytes within the bounds. -/
def preferredSize (s : Space) (count least greatest : Nat) : Nat :=
  min greatest (max least (s.free.freeBytes / count))

/-- Grows what is missing to a batch of `count` regions. -/
def completeBatch (s : Space) (h : Host) (count size : Nat) (regions : List Region) :
    Outcome (Space × Host) (List Region) :=
  let missing := count - regions.length
  if missing = 0 then .ok (s, h) regions
  else
    let start := s.logicalSize
    let grown := s.extend h (size * missing)
    match grown.answer with
    | .ok () => .ok grown.state (regions ++ tail start size missing)
    | .error f =>
      let (s, h) := grown.state
      let returned := returnRegions s.free regions
      let s := { s with free := returned.state }
      match returned.answer with
      | .ok () => .fail (s, h) f
      | .error f => .fail (s, h) f

/-- Allocates `count` regions of `least` to `greatest` bytes. -/
def allocateBatch (s : Space) (h : Host) (count least greatest : Nat) :
    Outcome (Space × Host) (List Region) :=
  if count = 0 then .ok (s, h) []
  else if least = 0 ∨ greatest < least then .fail (s, h) (.invalidRange least greatest)
  else
    let size := s.preferredSize count least greatest
    match Offset.product? size count with
    | none => .fail (s, h) (.invalidRange size count)
    | some _ =>
      let carved := carve s.chain s.free count size least greatest
      let s := { s with free := carved.state.free }
      match carved.answer with
      | .error f => .fail (s, h) f
      | .ok () => s.completeBatch h count size carved.state.regions.toList

end Space

end SpillStorage
