import SpillStorage.Chain
import SpillStorage.Pool
import SpillStorage.SpillFiles

/-!
A space is one range of bytes `[0, logicalSize)` that only grows. The chain of blocks below it is at
least as long; its memory blocks are paid from the registry's ceiling, its file blocks lie in the
space's spill files. The pool holds the ranges that were released for reuse.

Correspondence:
  `ScratchOptions`, `ScratchSpace`            ↔ `SpaceOptions`, `Space`
  `ScratchSpace::with_options`                ↔ `create`
  `ScratchSpace::extend`                      ↔ `extend`; what it appends is `grow`
  `ScratchSpace::grow_in_memory`              ↔ `growInMemory`
  `ScratchSpace::check_range`                 ↔ `covers`
  `ScratchSpace::read`, `ScratchSpace::write` ↔ `read`, `write`
  `ScratchSpace::in_memory`, `in_memory_mut`  ↔ `inMemory?`, `storeInMemory?`
  `ScratchSpace::find_memory`                 ↔ `findMemory?`
  `ScratchSpace::allocate_space`              ↔ `allocate`
  `ScratchSpace::release_space`               ↔ `release`
  `ScratchSpace::into_initial_buffer`         ↔ `intoInitial`
  `ScratchSpace::drop`                        ↔ `drop`
-/

namespace SpillStorage

/-- What a caller may choose when it opens a space. -/
structure SpaceOptions where
  /-- The prefix of file names, that of the registry's settings if none is given. -/
  filePrefix : Option String := none
  /-- The caller's buffer, used as the first block and not paid for. -/
  initial : Option Buffer := none
  /-- A space that may not grow ends with the caller's buffer. -/
  growable : Bool := true

structure Space where
  /-- The place among the spaces opened on the registry, from 1 on. -/
  number : Nat
  chain : Chain
  files : SpillFiles
  /-- Released ranges. -/
  free : Pool
  logicalSize : Nat
  /-- Bytes of the memory ceiling held by the space. -/
  cacheUsage : Nat
  growable : Bool

namespace Space

/-- Opens a space on a registry. A refused prefix takes no number. -/
def create (r : Registry) (options : SpaceOptions) : Except Failure (Space × Registry) :=
  match FilePrefix.ofString (options.filePrefix.getD r.settings.filePrefix) with
  | .error f => .error f
  | .ok stem =>
    let chain :=
      match options.initial with
      | some buffer => Chain.empty.pushMemory buffer true
      | none => .empty
    .ok (⟨r.enroll.1, chain, .empty stem, .empty, 0, 0, options.growable⟩, r.enroll.2)

/-- Bytes covered by blocks. -/
def physicalSize (s : Space) : Nat := s.chain.size

/-- Bytes in the free pool. -/
def freeSpace (s : Space) : Nat := s.free.freeBytes

/-- Gives back all that the space holds: its share of the ceiling, then its files. -/
def drop (s : Space) (h : Host) : Host := s.files.drop (h.releaseCache s.cacheUsage)

/-- Ends the space and hands back the caller's buffer, if it brought one. -/
def intoInitial (s : Space) (h : Host) : Option Buffer × Host :=
  (s.chain.takeInitial.1, s.drop h)

/-! ## Growth -/

/-- Appends a memory block, if the ceiling and the heap have room for it; answers whether they
had. -/
def growInMemory (s : Space) (h : Host) (amount : Nat) : (Space × Host) × Bool :=
  match h.registry.reserveCache? amount with
  | none => ((s, h), false)
  | some registry =>
    let h := { h with registry := registry }
    if amount ≤ h.heapCapacity then
      (({ s with
          chain := s.chain.pushMemory (Buffer.zeros amount) false
          cacheUsage := s.cacheUsage + amount }, h), true)
    else ((s, h.releaseCache amount), false)

/-- Appends an extent of a spill file. -/
def growOnDisk (s : Space) (h : Host) (amount : Nat) : Outcome (Space × Host) Unit :=
  let claimed := s.files.claim h amount
  let s := { s with files := claimed.state.1 }
  match claimed.answer with
  | .error f => .fail (s, claimed.state.2) f
  | .ok extent =>
    .ok ({ s with chain := (s.chain.pushFile extent.file extent.offset amount).2 },
      claimed.state.2) ()

/-- Appends `amount` bytes, in memory if there is room, else on disk. -/
def grow (s : Space) (h : Host) (amount : Nat) : Outcome (Space × Host) Unit :=
  match s.growInMemory h amount with
  | (state, true) => .ok state ()
  | ((s, h), false) => s.growOnDisk h amount

/-- Lengthens the space by `size` bytes. Blocks are added in multiples of the granularity, and only
for bytes that the chain does not cover yet. -/
def extend (s : Space) (h : Host) (size : Nat) : Outcome (Space × Host) Unit :=
  if size = 0 then .ok (s, h) ()
  else
    match Offset.sum? s.logicalSize size with
    | none => .fail (s, h) (.invalidRange s.logicalSize size)
    | some logicalSize =>
      if logicalSize ≤ s.chain.size then .ok ({ s with logicalSize := logicalSize }, h) ()
      else if !s.growable then .fail (s, h) (.growthForbidden size s.chain.size)
      else
        match Offset.alignUp? (logicalSize - s.chain.size) h.registry.settings.granularity with
        | none => .fail (s, h) (.invalidRange s.logicalSize size)
        | some amount =>
          (s.grow h amount).andThen fun (s, h) () =>
            .ok ({ s with logicalSize := logicalSize }, h) ()

/-! ## Access -/

/-- The range `[offset, offset + length)` lies in the space. -/
def covers (s : Space) (offset length : Nat) : Bool :=
  match Offset.sum? offset length with
  | some last => decide (last ≤ s.logicalSize)
  | none => false

/-- Reads `length` bytes at `offset`. -/
def read (s : Space) (h : Host) (offset length : Nat) : Transfer :=
  if s.covers offset length then s.chain.read s.files.files h.disk offset length
  else .refused (.outOfBounds offset length s.logicalSize)

/-- Writes `bytes` at `offset`. -/
def write (s : Space) (h : Host) (offset : Nat) (bytes : List UInt8) :
    Outcome (Space × Host) Unit :=
  if s.covers offset bytes.length then
    (s.chain.write s.files.files h.disk offset bytes).onState
      fun (chain, disk) => ({ s with chain := chain }, { h with disk := disk })
  else .fail (s, h) (.outOfBounds offset bytes.length s.logicalSize)

/-- The bytes `[offset, offset + size)` of the space, if one memory block holds them all. -/
def inMemory? (s : Space) (offset size : Nat) : Option (List UInt8) :=
  if s.covers offset size then s.chain.inMemory? offset size else none

/-- Stores bytes over the start of the view that `inMemory?` gives, as many as fit. -/
def storeInMemory? (s : Space) (offset size : Nat) (bytes : List UInt8) : Option Space :=
  if s.covers offset size then
    (s.chain.storeInMemory? offset size bytes).map fun chain => { s with chain := chain }
  else none

/-- The first offset in `[start, limit)` where `size` bytes of the space lie in one memory block. -/
def findMemory? (s : Space) (start limit size : Nat) : Option Nat :=
  if size = 0 then none else s.chain.findMemory? start (min limit s.logicalSize) size

/-! ## Allocation -/

/-- Reserves `size` bytes: the best fit of the pool, else new bytes at the end of the space.
Nothing is asked for with size 0, and the end of the space is the answer. -/
def allocate (s : Space) (h : Host) (size : Nat) : Outcome (Space × Host) Nat :=
  if size = 0 then .ok (s, h) s.logicalSize
  else
    match s.free.allocate size with
    | some (offset, free) => .ok ({ s with free := free }, h) offset
    | none =>
      (s.extend h size).andThen fun (s, h) () => .ok (s, h) (s.logicalSize - size)

/-- Returns a range to the pool. -/
def release (s : Space) (offset size : Nat) : Except Failure Space :=
  if size = 0 then .error (.invalidRange offset size)
  else if s.covers offset size then
    match s.free.release offset size with
    | .ok free => .ok { s with free := free }
    | .error f => .error f
  else .error (.outOfBounds offset size s.logicalSize)

end Space

end SpillStorage
