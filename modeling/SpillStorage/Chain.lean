import SpillStorage.TempFile

/-!
A chain lays blocks end to end over one address space. A block is a buffer in memory or an extent
of a spill file. Reading and writing run along the blocks from the one that holds the offset;
where the blocks end, the bytes moved so far stay moved and the rest is out of bounds.

Starts and sizes are natural numbers here and are added without a check. `Proofs/Chain/Checked`
computes them as offsets, and says that both agree as long as the chain ends below `Offset.bound`.

Correspondence:
  `Backing`, `Block`, `BlockChain`             ↔ `Backing`, `Block`, `Chain`
  `Block::end`, `Block::is_memory`             ↔ `Block.finish`, `Block.isMemory`
  `Block::read`, `Block::write`                ↔ `Block.read`, `Block.write`
  `Block::in_memory`, `Block::in_memory_mut`   ↔ `Block.window?`
  `BlockChain::new`, `BlockChain::push_memory` ↔ `empty`, `pushMemory`
  `BlockChain::push_file`                      ↔ `pushFile`, with `continues` for the tail
  `BlockChain::find`                           ↔ `find?`, and `blocksFrom` for the walk from there
  `BlockChain::read`, `write`                  ↔ `read` (`readAlong`), `write` (`writeAlong`)
  `BlockChain::in_memory`, `in_memory_mut`     ↔ `inMemory?`, `storeInMemory?`
  `BlockChain::find_memory`                    ↔ `findMemory?`; the loop is `findWindow`
  `BlockChain::take_initial`                   ↔ `takeInitial`
  `BlockChain::memory_bytes`, `file_bytes`     ↔ `memoryBytes`, `fileBytes`
-/

namespace SpillStorage

/-- What holds the bytes of a block. -/
inductive Backing where
  /-- A buffer; `initial` marks the one that the caller brought. -/
  | memory (data : Buffer) (initial : Bool)
  /-- The bytes from `offset` on of a spill file. -/
  | file (file offset : Nat)

structure Block where
  start : Nat
  size : Nat
  backing : Backing

namespace Block

/-- One past the last offset of the block. -/
def finish (b : Block) : Nat := b.start + b.size

def isMemory (b : Block) : Bool :=
  match b.backing with
  | .memory _ _ => true
  | .file _ _ => false

/-- The block is the buffer that the caller brought. -/
def isInitial (b : Block) : Bool :=
  match b.backing with
  | .memory _ initial => initial
  | .file _ _ => false

/-- Reads `length` bytes from `place` on, counted from the start of the block. -/
def read (b : Block) (files : List TempFile) (d : Disk) (place length : Nat) : Transfer :=
  match b.backing with
  | .memory data _ => .whole (data.slice place length)
  | .file file offset =>
    match files[file]? with
    | some f => f.readAt d (offset + place) length
    | none => .refused (.contradiction (.missingFile file))

/-- Writes `bytes` from `place` on, counted from the start of the block. -/
def write (b : Block) (files : List TempFile) (d : Disk) (place : Nat) (bytes : List UInt8) :
    Outcome (Block × Disk) Unit :=
  match b.backing with
  | .memory data initial =>
    .ok ({ b with backing := .memory (data.overwrite place bytes) initial }, d) ()
  | .file file offset =>
    match files[file]? with
    | none => .fail (b, d) (.contradiction (.missingFile file))
    | some f => (f.writeAt d (offset + place) bytes).onState fun d => (b, d)

/-- The buffer of the block, if it holds `size` bytes from `place` on. -/
def window? (b : Block) (place size : Nat) : Option Buffer :=
  match b.backing with
  | .memory data _ => if place + size ≤ b.size then some data else none
  | .file _ _ => none

end Block

structure Chain where
  blocks : List Block
  /-- The sum of the sizes of the blocks. -/
  size : Nat

namespace Chain

def empty : Chain := ⟨[], 0⟩

/-- Appends a memory block; no bytes make no block. -/
def pushMemory (c : Chain) (data : Buffer) (initial : Bool) : Chain :=
  if data.size = 0 then c
  else ⟨c.blocks ++ [⟨c.size, data.size, .memory data initial⟩], c.size + data.size⟩

/-- The last block ends where the extent starts, in the same file. -/
def continues (last : Block) (file offset : Nat) : Bool :=
  match last.backing with
  | .memory _ _ => false
  | .file lastFile lastOffset => lastFile == file && lastOffset + last.size == offset

/-- Appends an extent of a file, and answers whether the last block was lengthened by it instead of
a new one made. -/
def pushFile (c : Chain) (file offset size : Nat) : Bool × Chain :=
  match c.blocks.getLast? with
  | some last =>
    if continues last file offset then
      (true, ⟨c.blocks.dropLast ++ [{ last with size := last.size + size }], c.size + size⟩)
    else (false, ⟨c.blocks ++ [⟨c.size, size, .file file offset⟩], c.size + size⟩)
  | none => (false, ⟨c.blocks ++ [⟨c.size, size, .file file offset⟩], c.size + size⟩)

/-- The block ends at or before the offset. -/
def ends (offset : Nat) (b : Block) : Bool := decide (b.finish ≤ offset)

/-- The number of the block that holds the byte at `offset`. -/
def find? (c : Chain) (offset : Nat) : Option Nat :=
  c.blocks.findIdx? fun b => !ends offset b

/-- The blocks from the one that holds `offset` on. -/
def blocksFrom (c : Chain) (offset : Nat) : List Block := c.blocks.dropWhile (ends offset)

/-- The blocks that end at or before `offset`. -/
def blocksBefore (c : Chain) (offset : Nat) : List Block := c.blocks.takeWhile (ends offset)

/-- Reads `length` bytes along the blocks, from `place` in the first. -/
def readAlong (files : List TempFile) (d : Disk) (overrun : Failure) :
    List Block → Nat → Nat → Transfer
  | [], _, length => ⟨[], if length = 0 then none else some overrun⟩
  | b :: rest, place, length =>
    if length = 0 then .whole []
    else
      let n := min (b.size - place) length
      (b.read files d place n).followedBy
        (readAlong files d overrun rest 0 (length - n))

/-- Reads `length` bytes from `offset` on. -/
def read (c : Chain) (files : List TempFile) (d : Disk) (offset length : Nat) : Transfer :=
  let overrun := Failure.outOfBounds offset length c.size
  if length = 0 then .whole []
  else
    match c.blocksFrom offset with
    | [] => .refused overrun
    | b :: rest => readAlong files d overrun (b :: rest) (offset - b.start) length

/-- Writes `bytes` along the blocks, from `place` in the first. -/
def writeAlong (files : List TempFile) (overrun : Failure) :
    List Block → Disk → Nat → List UInt8 → Outcome (List Block × Disk) Unit
  | [], d, _, bytes =>
    if bytes.isEmpty then .ok ([], d) () else .fail ([], d) overrun
  | b :: rest, d, place, bytes =>
    if bytes.isEmpty then .ok (b :: rest, d) ()
    else
      let n := min (b.size - place) bytes.length
      let first := b.write files d place (bytes.take n)
      match first.answer with
      | .error f => .fail (first.state.1 :: rest, first.state.2) f
      | .ok () =>
        (writeAlong files overrun rest first.state.2 0 (bytes.drop n)).onState
          fun (blocks, d) => (first.state.1 :: blocks, d)

/-- Writes `bytes` from `offset` on. -/
def write (c : Chain) (files : List TempFile) (d : Disk) (offset : Nat) (bytes : List UInt8) :
    Outcome (Chain × Disk) Unit :=
  let overrun := Failure.outOfBounds offset bytes.length c.size
  if bytes.isEmpty then .ok (c, d) ()
  else
    match c.blocksFrom offset with
    | [] => .fail (c, d) overrun
    | b :: rest =>
      (writeAlong files overrun (b :: rest) d (offset - b.start) bytes).onState
        fun (blocks, d) => ({ c with blocks := c.blocksBefore offset ++ blocks }, d)

/-- The bytes `[offset, offset + size)`, if one memory block holds them all. -/
def inMemory? (c : Chain) (offset size : Nat) : Option (List UInt8) :=
  match c.blocksFrom offset with
  | [] => none
  | b :: _ =>
    (b.window? (offset - b.start) size).map fun data => data.slice (offset - b.start) size

/-- Stores bytes into the view that `inMemory?` gives of `[offset, offset + size)`: as many as
fit, over its start. Nothing if there is no such view. -/
def storeInMemory? (c : Chain) (offset size : Nat) (bytes : List UInt8) : Option Chain :=
  match c.blocksFrom offset with
  | [] => none
  | b :: rest =>
    match b.backing with
    | .file _ _ => none
    | .memory data initial =>
      if (b.window? (offset - b.start) size).isSome then
        let stored := data.overwrite (offset - b.start) (bytes.take size)
        some { c with
          blocks := c.blocksBefore offset ++
            { b with backing := .memory stored initial } :: rest }
      else none

/-- The first offset from `place` on at which one memory block of these holds `size` bytes that
end at or before `limit`. -/
def findWindow (size limit : Nat) : List Block → Nat → Option Nat
  | [], _ => none
  | b :: rest, place =>
    match Offset.sum? place size with
    | none => none
    | some last =>
      if last ≤ limit then
        if (b.window? (place - b.start) size).isSome then some place
        else findWindow size limit rest b.finish
      else none

/-- The first offset in `[begin, limit)` where `size` bytes lie in one memory block before
`limit`. -/
def findMemory? (c : Chain) (start limit size : Nat) : Option Nat :=
  findWindow size limit (c.blocksFrom start) start

/-- Takes the caller's buffer out of the first block, if that holds one; an emptied buffer stays. -/
def takeInitial (c : Chain) : Option Buffer × Chain :=
  match c.blocks with
  | ⟨start, size, .memory data true⟩ :: rest =>
    (some data, { c with blocks := ⟨start, size, .memory (Buffer.zeros 0) true⟩ :: rest })
  | _ => (none, c)

/-- Bytes in memory blocks, with or without the caller's buffer. -/
def memoryBytes (c : Chain) (withInitial : Bool) : Nat :=
  Offset.total
    ((c.blocks.filter fun b => b.isMemory && (withInitial || !b.isInitial)).map Block.size)

/-- Bytes in file blocks. -/
def fileBytes (c : Chain) : Nat :=
  Offset.total ((c.blocks.filter fun b => !b.isMemory).map Block.size)

end Chain

end SpillStorage
