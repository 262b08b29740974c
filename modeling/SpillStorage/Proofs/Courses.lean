import SpillStorage.Proofs.RecordLog
import SpillStorage.Proofs.Space.Course
import SpillStorage.Proofs.StagingCache.Steps

/-!
What record logs and staging caches store in the space inside them.

What is proved:
  1. `course_storeRecord`: to store a record is a course of the space, which stores the record in
     its place, or nothing if it is refused.
  2. `course_slot`: so it is with a slot that is handed out and filled.
  3. `StagingCache.course_serve`: whatever a cache in order is asked is a course of its space, which
     stores what `stores` tells from the request and its answer.

A cache out of order could be refused after it had stored something. One in order is refused before.
-/

namespace SpillStorage

open Space

variable {s : Space} {h : Host}

/-! ## Record logs -/

/-- What storing a record stores, told from the answer. -/
def RecordLog.stores (l : RecordLog) (h : Host) (record : List UInt8) : List Store :=
  told (fun index => [⟨index * l.recordLength, record⟩]) (l.store h record).answer

theorem course_makeRoom (l : RecordLog) (h : Host) :
    Course (l.space, h) [] (l.makeRoom h).state := by
  unfold RecordLog.makeRoom
  split
  · exact .single (.extend _ _ _)
  · exact .start

theorem course_storeRecord {l : RecordLog} (ha : Stands (l.space, h)) (record : List UInt8) :
    Course (l.space, h) (l.stores h record)
      ((l.store h record).state.1.space, (l.store h record).state.2) := by
  have hroom := course_makeRoom l h
  have hstands := hroom.stands ha
  unfold RecordLog.stores RecordLog.store
  by_cases hlength : record.length ≠ l.recordLength
  · rw [if_pos hlength]
    exact .start
  · rw [if_neg hlength]
    cases hmake : l.makeRoom h with
    | mk b answer =>
    rw [hmake] at hroom hstands
    cases answer with
    | error f => exact hroom
    | ok a =>
      simp only [Outcome.andThen]
      rcases write_cases hstands (l.count * l.recordLength) record with
        ⟨f, heq⟩ | ⟨c, heq, hcourse⟩
      · rw [heq]
        exact hroom
      · rw [heq]
        exact hroom.trans hcourse

/-! ## Staging caches -/

namespace StagingCache

variable {base : Finset Nat} {c : StagingCache} {offset size : Nat}

/-- What is stored for a blob: the header, then the payload. -/
def blobStores (offset : Nat) (payload : List UInt8) : List Store :=
  [⟨offset, LittleEndian.encode payload.length⟩, ⟨offset + headerLength, payload⟩]

/-- What a request stores, told from its answer. An append that moves a blob stores the old payload
again, as long as the reference says that it is. -/
def stores (c : StagingCache) (h : Host) : Request → List Store
  | .putMessage message => told (fun offset => [⟨offset, message⟩]) (c.putMessage h message).answer
  | .storeInSlot offset length bytes =>
    if (c.storeInSlot? offset length bytes).isSome then [⟨offset, bytes.take length⟩] else []
  | .putBlob data => told (fun r => blobStores r.offset data) (c.putBlob h data).answer
  | .appendBlob r data =>
    told (fun r' =>
      if headerLength + (r.length + data.length) ≤ r.capacity then
        [⟨r.offset + headerLength + r.length, data⟩, ⟨r.offset, LittleEndian.encode r'.length⟩]
      else
        blobStores r'.offset (bytesAt (c.space, h) (r.offset + headerLength) r.length ++ data))
      (c.appendBlob h r data).answer
  | _ => []

/-! ### Filling a slot -/

theorem course_fillMessage (ha : Stands (s, h)) {message : List UInt8}
    (hle : offset + message.length ≤ s.logicalSize) :
    ∃ b, fillMessage message s h offset = .ok b () ∧ Course (s, h) [⟨offset, message⟩] b := by
  unfold fillMessage
  cases hstore : s.storeInMemory? offset message.length message with
  | some s' =>
    have hcourse := Course.single (Moves.store h hstore)
    rw [List.take_length] at hcourse
    exact ⟨_, rfl, hcourse⟩
  | none =>
    obtain ⟨b, hwrite, -⟩ := write_ok ha offset message hle
    exact ⟨b, hwrite, .single (.write hwrite)⟩

theorem course_fillBlob (ha : Stands (s, h)) {payload : List UInt8}
    (hle : offset + (headerLength + payload.length) ≤ s.logicalSize) :
    ∃ b, fillBlob payload s h offset = .ok b () ∧ Course (s, h) (blobStores offset payload) b := by
  have hheader := length_encode payload.length
  obtain ⟨⟨s₁, h₁⟩, hwrite, hr⟩ :=
    write_ok ha offset (LittleEndian.encode payload.length) (by omega)
  have hlength : s₁.logicalSize = s.logicalSize := hr.length
  obtain ⟨b, hwrite', -⟩ := write_ok hr.stands (offset + headerLength) payload (by omega)
  refine ⟨b, ?_, (Course.single (.write hwrite)).trans (.single (.write hwrite'))⟩
  unfold fillBlob
  rw [hwrite, Outcome.andThen_ok]
  exact hwrite'

/-- The old payload is read in the space with the new slot, where it is what it was. -/
theorem course_fillMoved {a : Space × Host} (ha : Stands a) (hcourse : Course a [] (s, h))
    (r : BlobRef) (data : List UInt8)
    (hle : offset + (headerLength + (r.length + data.length)) ≤ s.logicalSize) :
    (∃ f, fillMoved r data s h offset = .fail (s, h) f) ∨
      ∃ b, fillMoved r data s h offset = .ok b () ∧
        Course (s, h) (blobStores offset
          (bytesAt a (r.offset + headerLength) r.length ++ data)) b := by
  have hs : Stands (s, h) := hcourse.stands ha
  unfold fillMoved
  by_cases hin : r.offset + headerLength + r.length ≤ s.logicalSize
  · have hpayload : shown (s, h) (r.offset + headerLength) r.length =
        bytesAt a (r.offset + headerLength) r.length :=
      (shown_eq hs hin).trans (hcourse.bytesAt_eq ha _ _)
    rw [read_complete hs hin, hpayload]
    apply Or.inr
    apply course_fillBlob hs
    rw [List.length_append, bytesAt, List.length_map, List.length_range]
    exact hle
  · rw [read_refused hs (Nat.not_le.1 hin)]
    exact .inl ⟨_, rfl⟩

/-- A slot that is handed out and filled is a course, which stores what it is filled with. -/
theorem course_allocateFilled (ha : Stands (s, h)) (hsize : 0 < size)
    {fill : Space → Host → Nat → Outcome (Space × Host) Unit} {w : Nat → List Store}
    (hfill : ∀ s' h' offset, Course (s, h) [] (s', h') → offset + size ≤ s'.logicalSize →
      (∃ f, fill s' h' offset = .fail (s', h') f) ∨
        ∃ b, fill s' h' offset = .ok b () ∧ Course (s', h') (w offset) b) :
    Course (s, h) (told w (allocateFilled s h size fill).answer)
      (allocateFilled s h size fill).state := by
  have hallocated := course_allocate ha.sound h size
  unfold allocateFilled
  rcases allocate_cases ha hsize with ⟨f, heq⟩ | ⟨⟨s', h'⟩, offset, heq, hhands⟩
  · rw [heq]
    exact .start
  · rw [heq] at hallocated ⊢
    rw [Outcome.andThen_ok]
    simp only
    rcases hfill s' h' offset hallocated (hands_le hhands hsize) with
      ⟨f, hfail⟩ | ⟨b, hok, hfilled⟩
    · rw [hfail]
      simp only [Outcome.fail]
      split
      · next s₂ hr => exact hallocated.trans (course_release hhands.stands.sound h' hr)
      · exact hallocated
    · rw [hok]
      exact hallocated.trans hfilled

/-- A cache asks for a slot of the size that is worked out for `n` bytes. It is refused and nothing
is stored, or there is one. -/
theorem course_slot (ha : InOrder base (c, h)) {n : Nat} (hslot : c.slotSize n = .ok size)
    {fill : Space → Host → Nat → Outcome (Space × Host) Unit} {w : Nat → List Store}
    (hfill : ∀ s' h' offset, Course (c.space, h) [] (s', h') → offset + n ≤ s'.logicalSize →
      (∃ f, fill s' h' offset = .fail (s', h') f) ∨
        ∃ b, fill s' h' offset = .ok b () ∧ Course (s', h') (w offset) b) :
    (∃ b f, c.withSpace (allocateFilled c.space h size fill) = .fail b f ∧
        Course (c.space, h) [] (held b)) ∨
      ∃ s' h' offset, c.withSpace (allocateFilled c.space h size fill) =
          .ok ({ c with space := s' }, h') offset ∧
        Course (c.space, h) (w offset) (s', h') := by
  obtain ⟨hfits, hsize, -⟩ := slotSize_ok ha.slots.alignment_pos hslot
  have hcourse : Course (c.space, h) (told w (allocateFilled c.space h size fill).answer)
      (allocateFilled c.space h size fill).state :=
    course_allocateFilled ha.stands hsize fun s' h' offset hallocated hle =>
      hfill s' h' offset hallocated (by omega)
  cases hfilled : allocateFilled c.space h size fill with
  | mk b answer =>
    rw [hfilled] at hcourse
    cases answer with
    | error f => exact .inl ⟨_, f, rfl, hcourse⟩
    | ok offset => exact .inr ⟨b.1, b.2, offset, rfl, hcourse⟩

/-! ### The requests -/

theorem course_putMessage (ha : InOrder base (c, h)) (message : List UInt8) :
    Course (c.space, h) (c.stores h (.putMessage message))
      (held (c.putMessage h message).state) := by
  simp only [stores]
  unfold putMessage
  cases hslot : c.slotSize message.length with
  | error f => exact .start
  | ok size =>
    rcases course_slot ha hslot (w := fun offset => [⟨offset, message⟩])
        fun s' h' offset hallocated hle =>
          .inr (course_fillMessage (hallocated.stands ha.stands) hle) with
      ⟨b, f, heq, hcourse⟩ | ⟨s', h', offset, heq, hcourse⟩
    · simp only [heq]
      exact hcourse
    · simp only [heq]
      exact hcourse

theorem course_putBlob (ha : InOrder base (c, h)) (data : List UInt8) :
    Course (c.space, h) (c.stores h (.putBlob data)) (held (c.putBlob h data).state) := by
  simp only [stores]
  unfold putBlob
  cases hslot : c.slotSize (headerLength + data.length) with
  | error f => exact .start
  | ok size =>
    rcases course_slot ha hslot (w := fun offset => blobStores offset data)
        fun s' h' offset hallocated hle =>
          .inr (course_fillBlob (hallocated.stands ha.stands) hle) with
      ⟨b, f, heq, hcourse⟩ | ⟨s', h', offset, heq, hcourse⟩
    · simp only [heq]
      exact hcourse
    · simp only [heq]
      exact hcourse

theorem course_releaseSlot (ha : Stands (c.space, h)) (offset size : Nat) :
    Course (c.space, h) [] (held (c.releaseSlot h offset size).state) := by
  unfold releaseSlot
  split
  · next s hr => exact course_release ha.sound h hr
  · exact .start

theorem course_releaseMessage (ha : Stands (c.space, h)) (offset : Nat) :
    Course (c.space, h) [] (held (c.releaseMessage h offset).state) := by
  unfold releaseMessage
  split
  · exact .start
  · next size _ =>
    exact course_releaseSlot (c := { c with messages := c.messages.erase offset }) ha offset size

theorem course_releaseBlob (ha : Stands (c.space, h)) (r : BlobRef) :
    Course (c.space, h) [] (held (c.releaseBlob h r).state) := by
  unfold releaseBlob
  split
  · exact course_releaseSlot (c := { c with blobs := c.blobs.erase r.offset }) ha r.offset
      r.capacity
  · exact .start

theorem course_releaseSlots (slots : List (Nat × Nat)) {c : StagingCache} {h : Host}
    (ha : Stands (c.space, h)) : Course (c.space, h) [] (held (c.releaseSlots h slots).state) := by
  induction slots generalizing c h with
  | nil => exact .start
  | cons slot rest ih =>
    have hfirst := course_releaseSlot ha slot.1 slot.2
    unfold releaseSlots Outcome.andThen
    split
    · exact hfirst.trans (ih (hfirst.stands ha))
    · exact hfirst

theorem course_appendInPlace (ha : InOrder base (c, h)) {r : BlobRef} {data : List UInt8}
    (hlive : c.size? (.blob r.offset) = some r.capacity)
    (hfits : headerLength + (r.length + data.length) ≤ r.capacity) :
    ∃ b, c.appendInPlace h r data = .ok b { r with length := r.length + data.length } ∧
      Course (c.space, h) [⟨r.offset + headerLength + r.length, data⟩,
        ⟨r.offset, LittleEndian.encode (r.length + data.length)⟩] (held b) := by
  have hslot : r.offset + r.capacity ≤ c.space.logicalSize := ha.slot_le hlive
  have hencode := length_encode (r.length + data.length)
  obtain ⟨⟨s₁, h₁⟩, hwrite, hr⟩ := write_ok ha.stands (r.offset + headerLength + r.length) data
    (show _ ≤ c.space.logicalSize by omega)
  have hlength : s₁.logicalSize = c.space.logicalSize := hr.length
  obtain ⟨⟨s₂, h₂⟩, hwrite', -⟩ := write_ok hr.stands r.offset
    (LittleEndian.encode (r.length + data.length)) (by omega)
  refine ⟨({ c with space := s₂ }, h₂), ?_,
    (Course.single (.write hwrite)).trans (.single (.write hwrite'))⟩
  unfold appendInPlace
  simp only [hwrite, Outcome.andThen_ok, hwrite']
  rfl

/-- Once the new slot is filled, the old one is returned for certain, so what was stored is not
stored by a request that is refused. -/
theorem course_appendMoving (ha : InOrder base (c, h)) {r : BlobRef} (data : List UInt8)
    (hlive : c.size? (.blob r.offset) = some r.capacity) :
    Course (c.space, h)
      (told (fun r' => blobStores r'.offset
        (bytesAt (c.space, h) (r.offset + headerLength) r.length ++ data))
        (c.appendMoving h r data).answer)
      (held (c.appendMoving h r data).state) := by
  unfold appendMoving
  cases hslot : c.slotSize (max (headerLength + (r.length + data.length)) (r.capacity * 2)) with
  | error f =>
    simp only [hslot]
    exact .start
  | ok capacity =>
    rcases course_slot ha hslot
        (w := fun offset => blobStores offset
          (bytesAt (c.space, h) (r.offset + headerLength) r.length ++ data))
        fun s' h' offset hallocated hle =>
          course_fillMoved ha.stands hallocated r data (by omega) with
      ⟨b, f, heq, hcourse⟩ | ⟨s₁, h₁, offset, heq, hcourse⟩
    · simp only [hslot, heq]
      exact hcourse
    · rcases movedSlot_cases ha data hlive hslot with ⟨b, f, hfail, -⟩ |
        ⟨s', h', offset', payload, hok, -, -, hblob⟩
      · rw [heq] at hfail
        cases hfail
      · rw [heq] at hok
        cases hok
        obtain ⟨s₂, hr, -⟩ := releaseMoved_ok ha hlive hblob
        have hreleased := course_releaseBlob (c := { c with space := s₁ })
          (hcourse.stands ha.stands) r
        rw [hr] at hreleased
        simp only [hslot, heq, Outcome.andThen_ok]
        rw [hr]
        have hboth := hcourse.trans hreleased
        rw [List.append_nil] at hboth
        exact hboth

/-- Whatever a cache in order is asked is a course of its space, which stores what the answer tells.
-/
theorem course_serve (ha : InOrder base (c, h)) (request : Request) :
    Course (c.space, h) (c.stores h request) (held (c.serve h request)) := by
  cases request with
  | putMessage message => exact course_putMessage ha message
  | storeInSlot offset length bytes =>
    simp only [stores, serve]
    cases hstore : c.storeInSlot? offset length bytes with
    | none => exact .start
    | some c' =>
      unfold storeInSlot? at hstore
      split at hstore
      · obtain ⟨s, hs, rfl⟩ := Option.map_eq_some_iff.1 hstore
        exact .single (.store h hs)
      · cases hstore
  | releaseMessage offset => exact course_releaseMessage ha.stands offset
  | putBlob data => exact course_putBlob ha data
  | appendBlob r data =>
    simp only [stores, serve, appendBlob]
    by_cases hlive : c.size? (.blob r.offset) = some r.capacity
    · rw [if_pos (holdsBlob_iff.2 hlive)]
      by_cases hfits : headerLength + (r.length + data.length) ≤ r.capacity
      · obtain ⟨b, heq, hcourse⟩ := course_appendInPlace ha hlive hfits
        simp only [if_pos hfits, heq]
        exact hcourse
      · simp only [if_neg hfits]
        exact course_appendMoving ha data hlive
    · rw [if_neg fun hholds => hlive (holdsBlob_iff.1 hholds)]
      exact .start
  | releaseBlob r => exact course_releaseBlob ha.stands r
  | clear =>
    exact course_releaseSlots _ (c := { c with messages := .empty, blobs := .empty }) ha.stands

end StagingCache

end SpillStorage
