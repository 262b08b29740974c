import SpillStorage.Proofs.StagingCache.References

/-!
Blobs with every sum and product checked: where one is no offset the operation ends without a
result.

What is proved:
  1. `putBlobChecked_eq` and `appendBlobChecked_eq`: in a cache in order over a space of fewer than
     `2 ^ 63` bytes no check fails, if the length that a request asks for is an offset with the
     header in front of it. The results are those of storing and appending.
  2. `blobChecked_eq`: nor does any in reading, with whatever reference.
  3. `serveChecked_eq`: so it is for every request.

A slot lies in the space, so what is added to its offset stays below the size of the space. What is
left are the lengths that callers bring, and the capacity that is doubled when a blob moves.
-/

namespace SpillStorage.StagingCache

open Space

/-! ## Filling a slot -/

/-- Writes the header and the payload of a blob into its slot. -/
def fillBlobChecked (payload : List UInt8) (s : Space) (h : Host) (offset : Nat) :
    Option (Outcome (Space × Host) Unit) := do
  let place ← Offset.sum? offset headerLength
  return (s.write h offset (LittleEndian.encode payload.length)).andThen fun (s, h) () =>
    s.write h place payload

/-- Copies the old payload and the data into a new slot. -/
def fillMovedChecked (old : BlobRef) (data : List UInt8) (s : Space) (h : Host) (offset : Nat) :
    Option (Outcome (Space × Host) Unit) := do
  let place ← Offset.sum? old.offset headerLength
  match (s.read h place old.length).complete with
  | .error f => return .fail (s, h) f
  | .ok payload => fillBlobChecked (payload ++ data) s h offset

/-- Allocates `size` bytes and fills them; bytes that cannot be filled are released again. -/
def allocateFilledChecked (s : Space) (h : Host) (size : Nat)
    (fill : Space → Host → Nat → Option (Outcome (Space × Host) Unit)) :
    Option (Outcome (Space × Host) Nat) :=
  match s.allocate h size with
  | ⟨a, .error f⟩ => some (.fail a f)
  | ⟨(s, h), .ok offset⟩ => do
    let filled ← fill s h offset
    match filled.answer with
    | .ok () => return .ok filled.state offset
    | .error f =>
      match filled.state.1.release offset size with
      | .ok s => return .fail (s, filled.state.2) f
      | .error g => return .fail filled.state g

variable {base : Finset Nat} {c : StagingCache} {s : Space} {h : Host} {r : BlobRef}
  {data payload : List UInt8} {offset size : Nat}

theorem fillBlobChecked_eq (hplace : offset + headerLength < Offset.bound) :
    fillBlobChecked payload s h offset = some (fillBlob payload s h offset) := by
  unfold fillBlobChecked
  rw [Offset.sum?_of_lt hplace]
  rfl

theorem fillMovedChecked_eq (hold : r.offset + headerLength < Offset.bound)
    (hplace : offset + headerLength < Offset.bound) :
    fillMovedChecked r data s h offset = some (fillMoved r data s h offset) := by
  unfold fillMovedChecked fillMoved
  rw [Offset.sum?_of_lt hold, Option.bind_eq_bind, Option.bind_some]
  cases (s.read h (r.offset + headerLength) r.length).complete with
  | error f => rfl
  | ok payload => exact fillBlobChecked_eq hplace

/-- What is handed out can be filled without a check that fails, if there is room for a header. -/
theorem allocateFilledChecked_eq (ha : Stands (s, h)) (hsize : headerLength ≤ size)
    {fill : Space → Host → Nat → Outcome (Space × Host) Unit}
    {fillChecked : Space → Host → Nat → Option (Outcome (Space × Host) Unit)}
    (hfill : ∀ s' h' offset, offset + headerLength < Offset.bound →
      fillChecked s' h' offset = some (fill s' h' offset)) :
    allocateFilledChecked s h size fillChecked = some (allocateFilled s h size fill) := by
  have hpos : 0 < size := Nat.lt_of_lt_of_le (by decide) hsize
  unfold allocateFilledChecked allocateFilled
  rcases allocate_cases ha hpos with ⟨f, hallocate⟩ | ⟨⟨s', h'⟩, offset, hallocate, hhands⟩
  · rw [hallocate]
    rfl
  · have hle := hands_le hhands hpos
    have hbounded := hhands.stands.sound.bounded
    rw [hallocate, Outcome.andThen_ok]
    simp only [Outcome.ok, hfill s' h' offset (by omega), Option.bind_eq_bind, Option.bind_some]
    cases (fill s' h' offset).answer with
    | ok => rfl
    | error f => cases (fill s' h' offset).state.1.release offset size <;> rfl

/-! ## Blobs -/

/-- Stages a blob and answers where it lies. -/
def putBlobChecked (c : StagingCache) (h : Host) (data : List UInt8) :
    Option (Outcome (StagingCache × Host) BlobRef) := do
  let needed ← Offset.sum? headerLength data.length
  match c.slotSize needed with
  | .error f => return .fail (c, h) f
  | .ok capacity =>
    let filled ← allocateFilledChecked c.space h capacity (fillBlobChecked data)
    return (c.withSpace filled).andThen fun (c, h) offset =>
      .ok ({ c with blobs := c.blobs.insert offset capacity }, h) ⟨offset, capacity, data.length⟩

/-- The payload of a blob, as long as its header says. -/
def blobChecked (c : StagingCache) (h : Host) (r : BlobRef) :
    Option (Except Failure (List UInt8)) :=
  if c.holdsBlob r then
    match (c.space.read h r.offset headerLength).complete with
    | .error f => some (.error f)
    | .ok header => do
      let length := LittleEndian.decode header
      let needed ← Offset.sum? headerLength length
      if r.capacity < needed then
        return .error (.contradiction (.oversizedBlob r.offset length r.capacity))
      else
        let place ← Offset.sum? r.offset headerLength
        return (c.space.read h place length).complete
  else some (.error (staleRef r))

/-- Appends in the slot of the blob: first the data, then the new length. -/
def appendInPlaceChecked (c : StagingCache) (h : Host) (r : BlobRef) (data : List UInt8)
    (length : Nat) : Option (Outcome (StagingCache × Host) BlobRef) := do
  let payload ← Offset.sum? r.offset headerLength
  let place ← Offset.sum? payload r.length
  return c.withSpace <|
    (c.space.write h place data).andThen fun (s, h) () =>
      (s.write h r.offset (LittleEndian.encode length)).map fun () => { r with length := length }

/-- Moves the blob to a slot of twice the capacity, or more if that is needed. -/
def appendMovingChecked (c : StagingCache) (h : Host) (r : BlobRef) (data : List UInt8)
    (length needed : Nat) : Option (Outcome (StagingCache × Host) BlobRef) := do
  let doubled ← Offset.product? r.capacity 2
  match c.slotSize (max needed doubled) with
  | .error f => return .fail (c, h) f
  | .ok capacity =>
    let filled ← allocateFilledChecked c.space h capacity (fillMovedChecked r data)
    return (c.withSpace filled).andThen fun (c, h) offset =>
      (c.releaseBlob h r).andThen fun (c, h) () =>
        .ok ({ c with blobs := c.blobs.insert offset capacity }, h) ⟨offset, capacity, length⟩

/-- Appends data to a blob and answers the reference to use from then on. -/
def appendBlobChecked (c : StagingCache) (h : Host) (r : BlobRef) (data : List UInt8) :
    Option (Outcome (StagingCache × Host) BlobRef) :=
  if c.holdsBlob r then do
    let length ← Offset.sum? r.length data.length
    let needed ← Offset.sum? headerLength length
    if needed ≤ r.capacity then c.appendInPlaceChecked h r data length
    else c.appendMovingChecked h r data length needed
  else some (.fail (c, h) (staleRef r))

theorem putBlobChecked_eq (ha : InOrder base (c, h))
    (hlength : headerLength + data.length < Offset.bound) :
    c.putBlobChecked h data = some (c.putBlob h data) := by
  unfold putBlobChecked putBlob
  rw [Offset.sum?_of_lt hlength, Option.bind_eq_bind, Option.bind_some]
  cases hslot : c.slotSize (headerLength + data.length) with
  | error f => rfl
  | ok capacity =>
    obtain ⟨hfits, -, -⟩ := slotSize_ok ha.slots.alignment_pos hslot
    have hroom : headerLength ≤ capacity := by omega
    simp only [allocateFilledChecked_eq ha.stands hroom fun _ _ _ => fillBlobChecked_eq]
    rfl

/-- The slot of a live blob ends before offsets do. -/
theorem InOrder.slot_lt (ha : InOrder base (c, h))
    (hlive : c.size? (.blob r.offset) = some r.capacity) :
    r.offset + r.capacity < Offset.bound :=
  (show r.offset + r.capacity ≤ c.space.logicalSize from ha.slot_le hlive).trans_lt
    ha.stands.sound.bounded

theorem appendInPlaceChecked_eq (ha : InOrder base (c, h))
    (hlive : c.size? (.blob r.offset) = some r.capacity)
    (hfits : headerLength + (r.length + data.length) ≤ r.capacity) :
    c.appendInPlaceChecked h r data (r.length + data.length) = some (c.appendInPlace h r data) := by
  have hslot := ha.slot_lt hlive
  unfold appendInPlaceChecked
  rw [Offset.sum?_of_lt (by omega), Option.bind_eq_bind, Option.bind_some,
    Offset.sum?_of_lt (by omega)]
  rfl

theorem appendMovingChecked_eq (ha : InOrder base (c, h))
    (hlive : c.size? (.blob r.offset) = some r.capacity)
    (hshort : c.space.physicalSize < Disk.lengthBound) :
    c.appendMovingChecked h r data (r.length + data.length)
        (headerLength + (r.length + data.length)) = some (c.appendMoving h r data) := by
  have hslot : r.offset + r.capacity ≤ c.space.logicalSize := ha.slot_le hlive
  have hcovered : c.space.logicalSize ≤ c.space.physicalSize := ha.stands.sound.covered
  have hbound : Disk.lengthBound * 2 = Offset.bound := by decide
  have hheader : headerLength < Disk.lengthBound := by decide
  unfold appendMovingChecked appendMoving
  rw [Offset.product?_of_lt (by omega), Option.bind_eq_bind, Option.bind_some]
  cases hsize : c.slotSize (max (headerLength + (r.length + data.length)) (r.capacity * 2)) with
  | error f =>
    simp only [hsize]
    rfl
  | ok capacity =>
    obtain ⟨hfits, -, -⟩ := slotSize_ok ha.slots.alignment_pos hsize
    have hroom : headerLength ≤ capacity := by omega
    have hold : r.offset + headerLength < Offset.bound := by omega
    simp only [hsize,
      allocateFilledChecked_eq ha.stands hroom fun _ _ _ => fillMovedChecked_eq hold]
    rfl

theorem appendBlobChecked_eq (ha : InOrder base (c, h))
    (hshort : c.space.physicalSize < Disk.lengthBound)
    (hlength : headerLength + (r.length + data.length) < Offset.bound) :
    c.appendBlobChecked h r data = some (c.appendBlob h r data) := by
  unfold appendBlobChecked appendBlob
  by_cases hholds : c.holdsBlob r = true
  · have hlive := holdsBlob_iff.1 hholds
    rw [if_pos hholds, if_pos hholds, Offset.sum?_of_lt (by omega), Option.bind_eq_bind,
      Option.bind_some, Offset.sum?_of_lt hlength, Option.bind_some]
    by_cases hfits : headerLength + (r.length + data.length) ≤ r.capacity
    · rw [if_pos hfits, if_pos hfits]
      exact appendInPlaceChecked_eq ha hlive hfits
    · rw [if_neg hfits, if_neg hfits]
      exact appendMovingChecked_eq ha hlive hshort
  · rw [if_neg hholds, if_neg hholds]

/-- Reading goes by the header, and what that says fits into the slot. -/
theorem blobChecked_eq (ha : InOrder base (c, h)) (hf : Framed (c, h)) (r : BlobRef) :
    c.blobChecked h r = some (c.blob h r) := by
  unfold blobChecked blob
  by_cases hholds : c.holdsBlob r = true
  · have hlive := holdsBlob_iff.1 hholds
    have hslot := ha.slot_lt hlive
    obtain ⟨header, hheader, hfits⟩ := hf.header ha hlive
    simp only [if_pos hholds, hheader]
    rw [Offset.sum?_of_lt (by omega), Option.bind_eq_bind, Option.bind_some,
      if_neg (Nat.not_lt.2 hfits), if_neg (Nat.not_lt.2 hfits), Offset.sum?_of_lt (by omega)]
    rfl
  · rw [if_neg hholds, if_neg hholds]

/-- So it is after an append. -/
theorem blobChecked_appended (ha : InOrder base (c, h)) (hf : Framed (c, h)) {r' : BlobRef}
    {next : StagingCache × Host} (happend : c.appendBlob h r data = .ok next r') :
    next.1.blobChecked next.2 r' = some (next.1.blob next.2 r') := by
  have hsteps := steps_serve ha (.appendBlob r data)
  simp only [serve, happend] at hsteps
  exact blobChecked_eq (hsteps.inOrder ha) (hsteps.framed ha hf) r'

/-! ## Any request -/

/-- Bytes that a blob is to have after the request, as far as the caller knows. -/
def Request.payloadLength : Request → Nat
  | .putBlob data => data.length
  | .appendBlob r data => r.length + data.length
  | _ => 0

/-- That many bytes and a header are no more than offsets count. -/
def Request.InRange (request : Request) : Prop :=
  headerLength + request.payloadLength < Offset.bound

instance (request : Request) : Decidable request.InRange :=
  inferInstanceAs (Decidable (_ < _))

/-- The cache and its host after a request, met or not. -/
def serveChecked (c : StagingCache) (h : Host) : Request → Option (StagingCache × Host)
  | .putBlob data => (c.putBlobChecked h data).map Outcome.state
  | .appendBlob r data => (c.appendBlobChecked h r data).map Outcome.state
  | request => some (c.serve h request)

theorem serveChecked_eq (ha : InOrder base (c, h))
    (hshort : c.space.physicalSize < Disk.lengthBound) {request : Request}
    (hrange : request.InRange) : c.serveChecked h request = some (c.serve h request) := by
  cases request with
  | putBlob data =>
    rw [serveChecked, putBlobChecked_eq ha hrange]
    rfl
  | appendBlob r data =>
    rw [serveChecked, appendBlobChecked_eq ha hshort hrange]
    rfl
  | _ => rfl

end SpillStorage.StagingCache
