import SpillStorage.LittleEndian
import SpillStorage.Space

/-!
A staging cache keeps messages and growable blobs in one space. Every item has a slot whose size
is a multiple of the alignment. A blob's slot starts with the length of its payload. A blob is
named by a reference that its holder keeps: references are checked by offset and capacity, and a
blob that outgrows its slot moves to one of at least twice the capacity.

The length in a reference is the caller's. Lengths are natural numbers here and are added and
doubled without a check. `Proofs/StagingCache/Checked` computes them as offsets, and says for which
requests both agree.

Correspondence:
  `BlobRef`, `BatchCache`                   ↔ `BlobRef`, `StagingCache`
  `BatchCache::new`                         ↔ `adopt`
  `BatchCache::reserve`                     ↔ `slotSize`
  `BatchCache::allocate_filled`             ↔ `allocateFilled`
  `BatchCache::put_message`                 ↔ `putMessage`, filled by `fillMessage`
  `BatchCache::message`, `message_slot_mut` ↔ `message`, `messageSlot?` and `storeInSlot?`
  `BatchCache::check_message`               ↔ `holdsMessage`
  `BatchCache::release_message`             ↔ `releaseMessage`
  `BatchCache::put_blob`                    ↔ `putBlob`, filled by `fillBlob`
  `BatchCache::append_blob`                 ↔ `appendBlob`: `appendInPlace` or `appendMoving`
  `BatchCache::blob`, `check_blob`          ↔ `blob`, `holdsBlob`
  `BatchCache::release_blob`                ↔ `releaseBlob`
  `BatchCache::clear`                       ↔ `clear`; the loop is `releaseSlots`
-/

namespace SpillStorage

/-- Where a blob lies. -/
structure BlobRef where
  /-- Where the header starts. -/
  offset : Nat
  /-- Bytes of the slot, header included. -/
  capacity : Nat
  /-- Bytes of the payload. -/
  length : Nat
  deriving DecidableEq, Repr

structure StagingCache where
  space : Space
  alignment : Nat
  /-- Sizes of the message slots by offset. -/
  messages : Index Nat
  /-- Sizes of the blob slots by offset. -/
  blobs : Index Nat

namespace StagingCache

/-- Bytes in front of a payload. -/
def headerLength : Nat := LittleEndian.width

/-- The number is a power of two. -/
def isPowerOfTwo (n : Nat) : Bool := n != 0 && n == Nat.pow 2 n.log2

/-- Takes a space over whose size is a multiple of the alignment, a power of two; another is
dropped. -/
def adopt (s : Space) (h : Host) (alignment : Nat) : Outcome Host StagingCache :=
  if !isPowerOfTwo alignment then
    .fail (s.drop h) (.invalidSettings (.alignmentNotPowerOfTwo alignment))
  else if s.logicalSize % alignment ≠ 0 then
    .fail (s.drop h) (.invalidSettings (.unalignedRegion s.logicalSize alignment))
  else .ok h ⟨s, alignment, .empty, .empty⟩

/-- The size of a slot for `bytes` bytes. -/
def slotSize (c : StagingCache) (bytes : Nat) : Except Failure Nat :=
  match Offset.alignUp? (max bytes 1) c.alignment with
  | some size => .ok size
  | none => .error (.invalidRange 0 bytes)

/-- Allocates `size` bytes and fills them; bytes that cannot be filled are released again. -/
def allocateFilled (s : Space) (h : Host) (size : Nat)
    (fill : Space → Host → Nat → Outcome (Space × Host) Unit) : Outcome (Space × Host) Nat :=
  (s.allocate h size).andThen fun (s, h) offset =>
    let filled := fill s h offset
    match filled.answer with
    | .ok () => .ok filled.state offset
    | .error f =>
      match filled.state.1.release offset size with
      | .ok s => .fail (s, filled.state.2) f
      | .error g => .fail filled.state g

/-- The cache over the space that an operation on the space leaves. -/
def withSpace (c : StagingCache) (o : Outcome (Space × Host) α) :
    Outcome (StagingCache × Host) α :=
  o.onState fun (s, h) => ({ c with space := s }, h)

/-! ## Messages -/

/-- Stores a message into its slot: in place where the slot lies in one memory block. -/
def fillMessage (message : List UInt8) (s : Space) (h : Host) (offset : Nat) :
    Outcome (Space × Host) Unit :=
  match s.storeInMemory? offset message.length message with
  | some s => .ok (s, h) ()
  | none => s.write h offset message

/-- Stages a message and answers its offset. -/
def putMessage (c : StagingCache) (h : Host) (message : List UInt8) :
    Outcome (StagingCache × Host) Nat :=
  match c.slotSize message.length with
  | .error f => .fail (c, h) f
  | .ok size =>
    (c.withSpace (allocateFilled c.space h size (fillMessage message))).andThen
      fun (c, h) offset =>
        .ok ({ c with messages := c.messages.insert offset size }, h) offset

/-- A live message slot at `offset` holds `length` bytes. -/
def holdsMessage (c : StagingCache) (offset length : Nat) : Bool :=
  match c.messages.get? offset with
  | some size => decide (length ≤ size)
  | none => false

/-- The first `length` bytes of the message at `offset`. -/
def message (c : StagingCache) (h : Host) (offset length : Nat) :
    Except Failure (List UInt8) :=
  if c.holdsMessage offset length then (c.space.read h offset length).complete
  else .error (.invalidRange offset length)

/-- The bytes of a message slot, while they lie in one memory block. -/
def messageSlot? (c : StagingCache) (offset length : Nat) : Option (List UInt8) :=
  if c.holdsMessage offset length then c.space.inMemory? offset length else none

/-- Stores bytes over the start of a message slot, as many as fit, while it lies in one memory
block. -/
def storeInSlot? (c : StagingCache) (offset length : Nat) (bytes : List UInt8) :
    Option StagingCache :=
  if c.holdsMessage offset length then
    (c.space.storeInMemory? offset length bytes).map fun s => { c with space := s }
  else none

/-- Releases the slot of `size` bytes at `offset`. -/
def releaseSlot (c : StagingCache) (h : Host) (offset size : Nat) :
    Outcome (StagingCache × Host) Unit :=
  match c.space.release offset size with
  | .ok s => .ok ({ c with space := s }, h) ()
  | .error f => .fail (c, h) f

def releaseMessage (c : StagingCache) (h : Host) (offset : Nat) :
    Outcome (StagingCache × Host) Unit :=
  match c.messages.get? offset with
  | none => .fail (c, h) (.invalidRange offset 0)
  | some size => { c with messages := c.messages.erase offset }.releaseSlot h offset size

/-! ## Blobs -/

/-- Writes the header and the payload of a blob into its slot. -/
def fillBlob (payload : List UInt8) (s : Space) (h : Host) (offset : Nat) :
    Outcome (Space × Host) Unit :=
  (s.write h offset (LittleEndian.encode payload.length)).andThen fun (s, h) () =>
    s.write h (offset + headerLength) payload

/-- Stages a blob and answers where it lies. -/
def putBlob (c : StagingCache) (h : Host) (data : List UInt8) :
    Outcome (StagingCache × Host) BlobRef :=
  match c.slotSize (headerLength + data.length) with
  | .error f => .fail (c, h) f
  | .ok capacity =>
    (c.withSpace (allocateFilled c.space h capacity (fillBlob data))).andThen
      fun (c, h) offset =>
        .ok ({ c with blobs := c.blobs.insert offset capacity }, h)
          ⟨offset, capacity, data.length⟩

/-- The reference names a live blob slot. -/
def holdsBlob (c : StagingCache) (r : BlobRef) : Bool :=
  c.blobs.get? r.offset == some r.capacity

/-- The refusal of a reference that names no live blob slot. -/
def staleRef (r : BlobRef) : Failure := .invalidRange r.offset r.capacity

/-- The payload of a blob, as long as its header says. -/
def blob (c : StagingCache) (h : Host) (r : BlobRef) : Except Failure (List UInt8) :=
  if c.holdsBlob r then
    match (c.space.read h r.offset headerLength).complete with
    | .error f => .error f
    | .ok header =>
      let length := LittleEndian.decode header
      if r.capacity < headerLength + length then
        .error (.contradiction (.oversizedBlob r.offset length r.capacity))
      else (c.space.read h (r.offset + headerLength) length).complete
  else .error (staleRef r)

def releaseBlob (c : StagingCache) (h : Host) (r : BlobRef) :
    Outcome (StagingCache × Host) Unit :=
  if c.holdsBlob r then
    { c with blobs := c.blobs.erase r.offset }.releaseSlot h r.offset r.capacity
  else .fail (c, h) (staleRef r)

/-- Appends in the slot of the blob: first the data, then the new length. -/
def appendInPlace (c : StagingCache) (h : Host) (r : BlobRef) (data : List UInt8) :
    Outcome (StagingCache × Host) BlobRef :=
  let length := r.length + data.length
  c.withSpace <|
    (c.space.write h (r.offset + headerLength + r.length) data).andThen fun (s, h) () =>
      (s.write h r.offset (LittleEndian.encode length)).map fun () =>
        { r with length := length }

/-- Copies the old payload and the data into a new slot. -/
def fillMoved (old : BlobRef) (data : List UInt8) (s : Space) (h : Host) (offset : Nat) :
    Outcome (Space × Host) Unit :=
  match (s.read h (old.offset + headerLength) old.length).complete with
  | .error f => .fail (s, h) f
  | .ok payload => fillBlob (payload ++ data) s h offset

/-- Moves the blob to a slot of twice the capacity, or more if that is needed. -/
def appendMoving (c : StagingCache) (h : Host) (r : BlobRef) (data : List UInt8) :
    Outcome (StagingCache × Host) BlobRef :=
  let length := r.length + data.length
  match c.slotSize (max (headerLength + length) (r.capacity * 2)) with
  | .error f => .fail (c, h) f
  | .ok capacity =>
    (c.withSpace (allocateFilled c.space h capacity (fillMoved r data))).andThen
      fun (c, h) offset =>
        (c.releaseBlob h r).andThen fun (c, h) () =>
          .ok ({ c with blobs := c.blobs.insert offset capacity }, h)
            ⟨offset, capacity, length⟩

/-- Appends data to a blob and answers the reference to use from then on. -/
def appendBlob (c : StagingCache) (h : Host) (r : BlobRef) (data : List UInt8) :
    Outcome (StagingCache × Host) BlobRef :=
  if c.holdsBlob r then
    if headerLength + (r.length + data.length) ≤ r.capacity then c.appendInPlace h r data
    else c.appendMoving h r data
  else .fail (c, h) (staleRef r)

/-- Releases the slots one after the other. -/
def releaseSlots (c : StagingCache) (h : Host) :
    List (Nat × Nat) → Outcome (StagingCache × Host) Unit
  | [] => .ok (c, h) ()
  | (offset, size) :: rest =>
    (c.releaseSlot h offset size).andThen fun (c, h) () => releaseSlots c h rest

/-- Releases every message and every blob. -/
def clear (c : StagingCache) (h : Host) : Outcome (StagingCache × Host) Unit :=
  { c with messages := .empty, blobs := .empty }.releaseSlots h
    (c.messages.entries ++ c.blobs.entries)

end StagingCache

end SpillStorage
