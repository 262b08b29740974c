import SpillStorage.Proofs.Offset
import SpillStorage.Proofs.StagingCache.Slots

/-!
What a staging cache does when it is asked for something.

What is proved:
  1. `allocateFilled_cases`: a slot is handed out and filled, or the bytes in use are what they
     were.
  2. `steps_serve`: every request, with whatever arguments, and its answer are one of the few kinds
     that `Steps` lists. Nothing else about the operations is used afterwards.
  3. `Talks.inOrder`: so a cache in order stays in order, whatever it is asked and whatever others
     do to its host.

A reference is a caller's claim: an append reads as many old bytes as the reference says, and
`Steps` says which these are.
-/

namespace SpillStorage

namespace StagingCache

open Space

/-! ## Sizes -/

/-- A slot holds what it is for, is not empty, and is as long as the alignment wants. -/
theorem slotSize_ok {c : StagingCache} (hpos : 0 < c.alignment) {bytes size : Nat}
    (h : c.slotSize bytes = .ok size) : bytes ≤ size ∧ 0 < size ∧ c.alignment ∣ size := by
  unfold slotSize at h
  cases halign : Offset.alignUp? (max bytes 1) c.alignment with
  | none =>
    rw [halign] at h
    cases h
  | some amount =>
    rw [halign] at h
    cases h
    have hle := Offset.alignUp?_le halign
    exact ⟨by omega, by omega, Offset.alignUp?_dvd hpos halign⟩

/-! ## Filling a slot -/

/-- A range that was handed out lies in the space. -/
theorem hands_le {a b : Space × Host} {offset size : Nat} (h : Hands a b offset size)
    (hsize : 0 < size) : offset + size ≤ b.1.logicalSize := by
  apply le_of_subset_used hsize
  rw [h.obtains.used]
  exact Finset.subset_union_right

theorem fillMessage_ok {s : Space} {h : Host} (ha : Stands (s, h)) {offset size : Nat}
    {message : List UInt8} (hfits : message.length ≤ size) (hle : offset + size ≤ s.logicalSize) :
    ∃ b, fillMessage message s h offset = .ok b () ∧ Fills (s, h) b offset size message := by
  unfold fillMessage
  cases hstore : s.storeInMemory? offset message.length message with
  | some s' =>
    have hr := store_ok ha hstore
    rw [List.take_length] at hr
    exact ⟨_, rfl, .of_rewrites ha hr hfits⟩
  | none =>
    obtain ⟨b, hwrite, hr⟩ := write_ok ha offset message (by omega)
    exact ⟨b, hwrite, .of_rewrites ha hr hfits⟩

/-- What a blob's slot shows: the length of the payload, then the payload. -/
def stored (payload : List UInt8) : List UInt8 := LittleEndian.encode payload.length ++ payload

theorem length_encode (n : Nat) : (LittleEndian.encode n).length = headerLength :=
  LittleEndian.length_digits _ n

theorem length_stored (payload : List UInt8) :
    (stored payload).length = headerLength + payload.length := by
  rw [stored, List.length_append, length_encode]

theorem fillBlob_ok {s : Space} {h : Host} (ha : Stands (s, h)) {offset size : Nat}
    {payload : List UInt8} (hfits : headerLength + payload.length ≤ size)
    (hle : offset + size ≤ s.logicalSize) :
    ∃ b, fillBlob payload s h offset = .ok b () ∧ Fills (s, h) b offset size (stored payload) := by
  have hheader := length_encode payload.length
  obtain ⟨⟨s₁, h₁⟩, hwrite, hr⟩ :=
    write_ok ha offset (LittleEndian.encode payload.length) (by omega)
  have hlength : s₁.logicalSize = s.logicalSize := hr.length
  obtain ⟨b, hwrite', hr'⟩ := write_ok hr.stands (offset + headerLength) payload (by omega)
  refine ⟨b, ?_, ?_⟩
  · unfold fillBlob
    rw [hwrite, Outcome.andThen_ok]
    exact hwrite'
  · rw [← hheader] at hr'
    exact (Fills.of_rewrites ha hr (by omega)).append hr' (by omega)

theorem fillMoved_cases {s : Space} {h : Host} (ha : Stands (s, h)) (r : BlobRef)
    (data : List UInt8) {offset size : Nat}
    (hfits : headerLength + (r.length + data.length) ≤ size) (hle : offset + size ≤ s.logicalSize) :
    (∃ f, fillMoved r data s h offset = .fail (s, h) f) ∨
      ∃ b, fillMoved r data s h offset = .ok b () ∧ Fills (s, h) b offset size
        (stored (shown (s, h) (r.offset + headerLength) r.length ++ data)) ∧
        r.offset + headerLength + r.length ≤ s.logicalSize := by
  unfold fillMoved
  by_cases hin : r.offset + headerLength + r.length ≤ s.logicalSize
  · have hlength := length_shown ha hin
    rw [read_complete ha hin]
    have hall : headerLength +
        (shown (s, h) (r.offset + headerLength) r.length ++ data).length ≤ size := by
      rw [List.length_append, hlength]
      exact hfits
    obtain ⟨b, hfill, hfills⟩ := fillBlob_ok ha hall hle
    exact .inr ⟨b, hfill, hfills, hin⟩
  · rw [read_refused ha (Nat.not_le.1 hin)]
    exact .inl ⟨_, rfl⟩

/-! ## Handing out a slot -/

/-- A slot that is filled with bytes of some kind is handed out, or the bytes in use are what they
were. -/
theorem allocateFilled_cases {s : Space} {h : Host} (ha : Stands (s, h)) {size : Nat}
    (hsize : 0 < size) {fill : Space → Host → Nat → Outcome (Space × Host) Unit}
    {Q : List UInt8 → Prop}
    (hfill : ∀ s' h' offset, Hands (s, h) (s', h') offset size →
      (∃ f, fill s' h' offset = .fail (s', h') f) ∨
      ∃ b bytes, fill s' h' offset = .ok b () ∧ Fills (s', h') b offset size bytes ∧ Q bytes) :
    (∃ b f, allocateFilled s h size fill = .fail b f ∧ Idles (s, h) b size) ∨
      ∃ b offset bytes, allocateFilled s h size fill = .ok b offset ∧ Hands (s, h) b offset size ∧
        bytes.length ≤ size ∧ shown b offset bytes.length = bytes ∧ Q bytes := by
  unfold allocateFilled
  rcases allocate_cases ha hsize with ⟨f, hallocate⟩ | ⟨⟨s', h'⟩, offset, hallocate, hhands⟩
  · rw [hallocate]
    exact .inl ⟨_, f, rfl, ha, rfl, .refl _ _, .inl rfl⟩
  · rw [hallocate, Outcome.andThen_ok]
    simp only
    rcases hfill s' h' offset hhands with ⟨f, hfail⟩ | ⟨b, bytes, hok, hfills, hbytes⟩
    · -- what was handed out is in use, so it can be returned
      have hsub : Finset.Ico offset (offset + size) ⊆ s'.used := by
        have hused : s'.used = _ := hhands.obtains.used
        rw [hused]
        exact Finset.subset_union_right
      obtain ⟨s₂, hr, hstands, hlength, hused, himage⟩ :=
        release_ok_of_used hhands.stands hsize hsub
      have hobtained : s'.used = s.used ∪ Finset.Ico offset (offset + size) := hhands.obtains.used
      have hunused : Disjoint s.used (Finset.Ico offset (offset + size)) := hhands.obtains.unused
      have hback : s₂.used = s.used := by
        rw [hused, hobtained, Finset.union_sdiff_right, Finset.sdiff_eq_self_of_disjoint hunused]
      have hgrown : s'.logicalSize = s.logicalSize ∨ s'.logicalSize = s.logicalSize + size :=
        hhands.grown
      rw [hfail]
      simp only [Outcome.fail, hr]
      refine .inl ⟨_, _, rfl, hstands, hback, ?_, ?_⟩
      · exact hhands.kept.trans (.of_image_eq himage _)
      · simp only [hlength]
        exact hgrown
    · rw [hok]
      exact .inr ⟨b, offset, bytes, rfl, hhands.fills hfills, hfills.fits, hfills.shows, hbytes⟩

/-! ## Answers -/

/-- What a request is answered when it is met. -/
inductive Reply where
  | done
  | place (offset : Nat)
  | ref (r : BlobRef)
  deriving DecidableEq

/-- The answer to a request, none if it is refused. -/
def reply (c : StagingCache) (h : Host) : Request → Option Reply
  | .putMessage message => (c.putMessage h message).answer.toOption.map .place
  | .storeInSlot offset length bytes => (c.storeInSlot? offset length bytes).map fun _ => .done
  | .releaseMessage offset => (c.releaseMessage h offset).answer.toOption.map fun _ => .done
  | .putBlob data => (c.putBlob h data).answer.toOption.map .ref
  | .appendBlob r data => (c.appendBlob h r data).answer.toOption.map .ref
  | .releaseBlob r => (c.releaseBlob h r).answer.toOption.map fun _ => .done
  | .clear => (c.clear h).answer.toOption.map fun _ => .done

/-- What comes of a request and its answer. -/
inductive Steps (base : Finset Nat) (a : StagingCache × Host) :
    Request → Option Reply → StagingCache × Host → Prop
  | refused {request : Request} {b : StagingCache × Host} (h : Kept a b) :
      Steps base a request none b
  | message {message : List UInt8} {offset size : Nat} {b : StagingCache × Host}
      (h : Placed a b (.message offset) size message) :
      Steps base a (.putMessage message) (some (.place offset)) b
  | stored {offset length size : Nat} {bytes : List UInt8} {b : StagingCache × Host}
      (h : ∀ old : List UInt8, old.length ≤ size → shown (held a) offset old.length = old →
        Written a b (.message offset) size (overwritten old 0 (bytes.take length))) :
      Steps base a (.storeInSlot offset length bytes) (some .done) b
  | messageReleased {offset size : Nat} {b : StagingCache × Host}
      (h : Dropped a b (.message offset) size) :
      Steps base a (.releaseMessage offset) (some .done) b
  | blob {data : List UInt8} {r : BlobRef} {b : StagingCache × Host}
      (hlength : r.length = data.length)
      (h : Placed a b (.blob r.offset) r.capacity (stored data)) :
      Steps base a (.putBlob data) (some (.ref r)) b
  | appended {data : List UInt8} {r : BlobRef} {b : StagingCache × Host}
      (hfits : headerLength + r.length ≤ r.capacity)
      (h : Written a b (.blob r.offset) r.capacity
        (stored (shown (held a) (r.offset + headerLength) r.length ++ data))) :
      Steps base a (.appendBlob r data) (some (.ref { r with length := r.length + data.length })) b
  /-- As far as the old slot goes, the old payload is what the slot showed. -/
  | moved {data payload : List UInt8} {r r' : BlobRef} {middle b : StagingCache × Host}
      (hlive : a.1.size? (.blob r.offset) = some r.capacity)
      (hpayload : payload.length = r.length)
      (hold : ∀ n ≤ r.length, headerLength + n ≤ r.capacity →
        payload.take n = shown (held a) (r.offset + headerLength) n)
      (hlength : r'.length = r.length + data.length)
      (hplaced : Placed a middle (.blob r'.offset) r'.capacity (stored (payload ++ data)))
      (hdropped : Dropped middle b (.blob r.offset) r.capacity) :
      Steps base a (.appendBlob r data) (some (.ref r')) b
  | blobReleased {r : BlobRef} {b : StagingCache × Host}
      (h : Dropped a b (.blob r.offset) r.capacity) :
      Steps base a (.releaseBlob r) (some .done) b
  | cleared {b : StagingCache × Host} (h : Emptied base a b) :
      Steps base a .clear (some .done) b

/-! ## The requests -/

variable {base : Finset Nat} {c : StagingCache} {h : Host}

theorem Kept.of_idles {b : Space × Host} {size : Nat} (hmultiple : c.alignment ∣ size)
    (hidles : Idles (c.space, h) b size) : Kept (c, h) ({ c with space := b.1 }, b.2) :=
  ⟨rfl, fun item => by cases item <;> rfl, size, hmultiple, hidles⟩

theorem Kept.refl (ha : Stands (c.space, h)) : Kept (c, h) (c, h) :=
  .of_idles (Nat.dvd_zero _) ⟨ha, rfl, .refl _ _, .inl rfl⟩

theorem size?_insertMessage (c : StagingCache) (s : Space) (offset size : Nat) (other : Item) :
    (⟨s, c.alignment, c.messages.insert offset size, c.blobs⟩ : StagingCache).size? other =
      if other = .message offset then some size else c.size? other := by
  cases other with
  | message offset' =>
    simp only [size?, Index.get?_insert, Item.message.injEq]
  | blob offset' => rfl

theorem size?_insertBlob (c : StagingCache) (s : Space) (offset size : Nat) (other : Item) :
    (⟨s, c.alignment, c.messages, c.blobs.insert offset size⟩ : StagingCache).size? other =
      if other = .blob offset then some size else c.size? other := by
  cases other with
  | message offset' => rfl
  | blob offset' => simp only [size?, Index.get?_insert, Item.blob.injEq]

theorem size?_eraseMessage (c : StagingCache) (s : Space) (offset : Nat) (other : Item) :
    (⟨s, c.alignment, c.messages.erase offset, c.blobs⟩ : StagingCache).size? other =
      if other = .message offset then none else c.size? other := by
  cases other with
  | message offset' => simp only [size?, Index.get?_erase, Item.message.injEq]
  | blob offset' => rfl

theorem size?_eraseBlob (c : StagingCache) (s : Space) (offset : Nat) (other : Item) :
    (⟨s, c.alignment, c.messages, c.blobs.erase offset⟩ : StagingCache).size? other =
      if other = .blob offset then none else c.size? other := by
  cases other with
  | message offset' => rfl
  | blob offset' => simp only [size?, Index.get?_erase, Item.blob.injEq]

/-- A new slot for an item, of the size that is worked out for `n` bytes, filled with bytes of some
kind. How the cache lists the item is left open. -/
theorem slot_cases (ha : InOrder base (c, h)) {n size : Nat} (hslot : c.slotSize n = .ok size)
    {fill : Space → Host → Nat → Outcome (Space × Host) Unit} {Q : List UInt8 → Prop}
    (hfill : ∀ s' h' offset, Hands (c.space, h) (s', h') offset size → n ≤ size →
      offset + size ≤ s'.logicalSize →
      (∃ f, fill s' h' offset = .fail (s', h') f) ∨
      ∃ b bytes, fill s' h' offset = .ok b () ∧ Fills (s', h') b offset size bytes ∧ Q bytes) :
    (∃ b f, c.withSpace (allocateFilled c.space h size fill) = .fail b f ∧ Kept (c, h) b) ∨
      ∃ s' h' offset bytes,
        c.withSpace (allocateFilled c.space h size fill) = .ok ({ c with space := s' }, h') offset ∧
        Q bytes ∧ ∀ (item : Item) (c' : StagingCache), item.offset = offset → c'.space = s' →
          c'.alignment = c.alignment →
          (∀ other, c'.size? other = if other = item then some size else c.size? other) →
          Placed (c, h) (c', h') item size bytes := by
  obtain ⟨hfits, hsize, hmultiple⟩ := slotSize_ok ha.slots.alignment_pos hslot
  have hfilled := allocateFilled_cases ha.stands hsize (Q := Q) fun s' h' offset hhands =>
    hfill s' h' offset hhands hfits (hands_le hhands hsize)
  rcases hfilled with ⟨b, f, heq, hidles⟩ |
    ⟨⟨s', h'⟩, offset, bytes, heq, hhands, hbytes, hshows, hQ⟩
  · left
    simp only [heq]
    exact ⟨_, f, rfl, .of_idles hmultiple hidles⟩
  · right
    simp only [heq]
    refine ⟨s', h', offset, bytes, rfl, hQ, ?_⟩
    intro item c' hoffset hspace halignment hsizes
    subst hoffset hspace
    exact ⟨halignment, hsizes, hsize, hmultiple, hhands, hbytes, hshows⟩

theorem putMessage_cases (ha : InOrder base (c, h)) (message : List UInt8) :
    (∃ b f, c.putMessage h message = .fail b f ∧ Kept (c, h) b) ∨
      ∃ b offset size, c.putMessage h message = .ok b offset ∧
        Placed (c, h) b (.message offset) size message := by
  unfold putMessage
  cases hslot : c.slotSize message.length with
  | error f => exact .inl ⟨_, f, rfl, .refl ha.stands⟩
  | ok size =>
    have hcases := slot_cases ha hslot (Q := (· = message)) fun s' h' offset hhands hfits hle => by
      obtain ⟨b, hok, hfills⟩ := fillMessage_ok hhands.stands hfits hle
      exact .inr ⟨b, message, hok, hfills, rfl⟩
    rcases hcases with ⟨b, f, heq, hkept⟩ | ⟨s', h', offset, bytes, heq, hbytes, hplaced⟩
    · simp only [heq]
      exact .inl ⟨b, f, rfl, hkept⟩
    · simp only [heq]
      rw [hbytes] at hplaced
      exact .inr ⟨_, offset, size, rfl,
        hplaced _ _ rfl rfl rfl (size?_insertMessage c s' offset size)⟩

theorem putBlob_cases (ha : InOrder base (c, h)) (data : List UInt8) :
    (∃ b f, c.putBlob h data = .fail b f ∧ Kept (c, h) b) ∨
      ∃ b r, c.putBlob h data = .ok b r ∧ r.length = data.length ∧
        Placed (c, h) b (.blob r.offset) r.capacity (stored data) := by
  unfold putBlob
  cases hslot : c.slotSize (headerLength + data.length) with
  | error f => exact .inl ⟨_, f, rfl, .refl ha.stands⟩
  | ok capacity =>
    have hcases := slot_cases ha hslot (Q := (· = stored data))
      fun s' h' offset hhands hfits hle => by
        obtain ⟨b, hok, hfills⟩ := fillBlob_ok hhands.stands hfits hle
        exact .inr ⟨b, stored data, hok, hfills, rfl⟩
    rcases hcases with ⟨b, f, heq, hkept⟩ | ⟨s', h', offset, bytes, heq, hbytes, hplaced⟩
    · simp only [heq]
      exact .inl ⟨b, f, rfl, hkept⟩
    · simp only [heq]
      rw [hbytes] at hplaced
      exact .inr ⟨_, ⟨offset, capacity, data.length⟩, rfl, rfl,
        hplaced _ _ rfl rfl rfl (size?_insertBlob c s' offset capacity)⟩

/-- A store into a view of a slot writes over the start of what the slot showed. -/
theorem storeInSlot_ok (ha : InOrder base (c, h)) {c' : StagingCache} {offset length : Nat}
    {bytes : List UInt8} (hstore : c.storeInSlot? offset length bytes = some c') :
    ∃ size, ∀ old : List UInt8, old.length ≤ size → shown (c.space, h) offset old.length = old →
      Written (c, h) (c', h) (.message offset) size (overwritten old 0 (bytes.take length)) := by
  unfold storeInSlot? at hstore
  by_cases hholds : c.holdsMessage offset length = true
  · rw [if_pos hholds] at hstore
    obtain ⟨s, hs, rfl⟩ := Option.map_eq_some_iff.1 hstore
    have hr := store_ok ha.stands hs
    unfold holdsMessage at hholds
    cases hlive : c.messages.get? offset with
    | none =>
      rw [hlive] at hholds
      cases hholds
    | some size =>
      rw [hlive] at hholds
      have hle : length ≤ size := of_decide_eq_true hholds
      have htake : (bytes.take length).length ≤ length := List.length_take_le _ _
      refine ⟨size, fun old hfits hshows => ⟨rfl, fun other => ?_, hlive, ?_⟩⟩
      · cases other <;> rfl
      · have hold : Fills (c.space, h) (c.space, h) offset size old :=
          .refl ha.stands hfits hshows
        exact hold.rewrite hr (Nat.zero_le _) (by omega)
  · rw [if_neg hholds] at hstore
    cases hstore

/-! ### Returning slots -/

theorem releaseSlot_ok (c : StagingCache) (hs : Stands (c.space, h)) {offset size : Nat}
    (hsize : 0 < size) (hsub : Finset.Ico offset (offset + size) ⊆ c.space.used) :
    ∃ s, c.releaseSlot h offset size = .ok ({ c with space := s }, h) () ∧ Stands (s, h) ∧
      s.logicalSize = c.space.logicalSize ∧
      s.used = c.space.used \ Finset.Ico offset (offset + size) ∧
      s.image h.disk = c.space.image h.disk := by
  obtain ⟨s, hr, hstands, hlength, hused, himage⟩ := release_ok_of_used hs hsize hsub
  refine ⟨s, ?_, hstands, hlength, hused, himage⟩
  unfold releaseSlot
  rw [hr]

theorem releaseMessage_ok (ha : InOrder base (c, h)) {offset size : Nat}
    (hlive : c.size? (.message offset) = some size) :
    ∃ s, c.releaseMessage h offset =
        .ok ({ c with space := s, messages := c.messages.erase offset }, h) () ∧
      Dropped (c, h) ({ c with space := s, messages := c.messages.erase offset }, h)
        (.message offset) size := by
  obtain ⟨s, hr, hstands, hlength, hused, himage⟩ :=
    releaseSlot_ok { c with messages := c.messages.erase offset } ha.stands
      (ha.slots.nonempty hlive) (ha.slots.subset_used hlive)
  refine ⟨s, ?_, hstands, rfl, size?_eraseMessage c s offset, hlive, hlength, hused, himage⟩
  have hget : c.messages.get? offset = some size := hlive
  unfold releaseMessage
  rw [hget]
  exact hr

theorem releaseMessage_cases (ha : InOrder base (c, h)) (offset : Nat) :
    (∃ f, c.releaseMessage h offset = .fail (c, h) f) ∨
      ∃ b size, c.releaseMessage h offset = .ok b () ∧
        Dropped (c, h) b (.message offset) size := by
  cases hlive : c.messages.get? offset with
  | none =>
    left
    unfold releaseMessage
    rw [hlive]
    exact ⟨_, rfl⟩
  | some size =>
    have hlive' : c.size? (.message offset) = some size := hlive
    obtain ⟨s, hr, hdropped⟩ := releaseMessage_ok ha hlive'
    exact .inr ⟨_, size, hr, hdropped⟩

theorem holdsBlob_iff {r : BlobRef} :
    c.holdsBlob r = true ↔ c.size? (.blob r.offset) = some r.capacity := by
  rw [holdsBlob, beq_iff_eq]
  rfl

theorem releaseBlob_ok (ha : InOrder base (c, h)) {r : BlobRef}
    (hlive : c.size? (.blob r.offset) = some r.capacity) :
    ∃ s, c.releaseBlob h r = .ok ({ c with space := s, blobs := c.blobs.erase r.offset }, h) () ∧
      Dropped (c, h) ({ c with space := s, blobs := c.blobs.erase r.offset }, h) (.blob r.offset)
        r.capacity := by
  obtain ⟨s, hr, hstands, hlength, hused, himage⟩ :=
    releaseSlot_ok { c with blobs := c.blobs.erase r.offset } ha.stands
      (ha.slots.nonempty hlive) (ha.slots.subset_used hlive)
  refine ⟨s, ?_, hstands, rfl, size?_eraseBlob c s r.offset, hlive, hlength, hused, himage⟩
  unfold releaseBlob
  rw [if_pos (holdsBlob_iff.2 hlive)]
  exact hr

theorem releaseBlob_cases (ha : InOrder base (c, h)) (r : BlobRef) :
    (∃ f, c.releaseBlob h r = .fail (c, h) f) ∨
      ∃ b, c.releaseBlob h r = .ok b () ∧ Dropped (c, h) b (.blob r.offset) r.capacity := by
  by_cases hlive : c.size? (.blob r.offset) = some r.capacity
  · obtain ⟨s, hr, hdropped⟩ := releaseBlob_ok ha hlive
    exact .inr ⟨_, hr, hdropped⟩
  · left
    unfold releaseBlob
    rw [if_neg fun hholds => hlive (holdsBlob_iff.1 hholds)]
    exact ⟨_, rfl⟩

/-! ### Appending -/

theorem appendInPlace_ok (ha : InOrder base (c, h)) {r : BlobRef} {data : List UInt8}
    (hlive : c.size? (.blob r.offset) = some r.capacity)
    (hfits : headerLength + (r.length + data.length) ≤ r.capacity) :
    ∃ b, c.appendInPlace h r data = .ok b { r with length := r.length + data.length } ∧
      Written (c, h) b (.blob r.offset) r.capacity
        (stored (shown (c.space, h) (r.offset + headerLength) r.length ++ data)) := by
  have hslot : r.offset + r.capacity ≤ c.space.logicalSize := ha.slot_le hlive
  -- what the slot showed: a header, and a payload as long as the reference says
  have hold := shown_append (c.space, h) r.offset headerLength r.length
  have hheader : (shown (c.space, h) r.offset headerLength).length = headerLength :=
    length_shown ha.stands (show r.offset + headerLength ≤ c.space.logicalSize by omega)
  have hpayload : (shown (c.space, h) (r.offset + headerLength) r.length).length = r.length :=
    length_shown ha.stands (show r.offset + headerLength + r.length ≤ c.space.logicalSize by omega)
  generalize shown (c.space, h) r.offset headerLength = header at hold hheader
  generalize shown (c.space, h) (r.offset + headerLength) r.length = payload at hold hpayload ⊢
  have hlength : (header ++ payload).length = headerLength + r.length := by
    rw [List.length_append, hheader, hpayload]
  have hencode := length_encode (payload ++ data).length
  have hfills : Fills (c.space, h) (c.space, h) r.offset r.capacity (header ++ payload) :=
    .refl ha.stands (by omega) (by rw [hlength, hold])
  -- the data goes behind the payload, then the new length over the header
  obtain ⟨⟨s₁, h₁⟩, hwrite, hr⟩ := write_ok ha.stands (r.offset + headerLength + r.length) data
    (show _ ≤ c.space.logicalSize by omega)
  have hlength₁ : s₁.logicalSize = c.space.logicalSize := hr.length
  obtain ⟨⟨s₂, h₂⟩, hwrite', hr'⟩ := write_ok hr.stands r.offset
    (LittleEndian.encode (payload ++ data).length) (by omega)
  rw [Nat.add_assoc, ← hlength] at hr
  have hdata := hfills.append hr (by omega)
  have hall := hdata.rewrite hr' (Nat.zero_le _) (by omega)
  rw [List.append_assoc, overwritten_front _ (by rw [hencode, hheader])] at hall
  refine ⟨({ c with space := s₂ }, h₂), ?_, rfl, fun other => ?_, hlive, hall⟩
  · have hsum : (payload ++ data).length = r.length + data.length := by
      rw [List.length_append, hpayload]
    rw [hsum] at hwrite'
    unfold appendInPlace
    simp only [hwrite, Outcome.andThen_ok, hwrite']
    rfl
  · cases other <;> rfl

/-- Once the new slot is there, the old one can be returned. -/
theorem releaseMoved_ok (ha : InOrder base (c, h)) {r : BlobRef}
    (hlive : c.size? (.blob r.offset) = some r.capacity) {s₁ : Space} {h₁ : Host}
    {offset capacity : Nat} {bytes : List UInt8}
    (hplaced : Placed (c, h) ({ c with space := s₁, blobs := c.blobs.insert offset capacity }, h₁)
      (.blob offset) capacity bytes) :
    ∃ s₂, StagingCache.releaseBlob { c with space := s₁ } h₁ r =
        .ok ({ c with space := s₂, blobs := c.blobs.erase r.offset }, h₁) () ∧
      Dropped ({ c with space := s₁, blobs := c.blobs.insert offset capacity }, h₁)
        ({ c with space := s₂, blobs := (c.blobs.erase r.offset).insert offset capacity }, h₁)
        (.blob r.offset) r.capacity := by
  have hmiddle := ha.placed hplaced
  have hne := ha.ne_of_live hplaced hlive
  have hlive₁ := (hplaced.sizes (.blob r.offset)).trans (if_neg hne)
  rw [hlive] at hlive₁
  obtain ⟨s₂, hr, hstands, hlength, hused, himage⟩ :=
    releaseSlot_ok { c with space := s₁, blobs := c.blobs.erase r.offset } hmiddle.stands
      (hmiddle.slots.nonempty hlive₁) (hmiddle.slots.subset_used hlive₁)
  refine ⟨s₂, ?_, hstands, rfl, fun other => ?_, hlive₁, hlength, hused, himage⟩
  · have hholds : StagingCache.holdsBlob { c with space := s₁ } r = true := holdsBlob_iff.2 hlive
    unfold releaseBlob
    rw [if_pos hholds]
    exact hr
  · have hinsert := size?_insertBlob { c with space := s₂, blobs := c.blobs.erase r.offset } s₂
      offset capacity other
    have herase := size?_eraseBlob c s₂ r.offset other
    rw [hplaced.sizes]
    by_cases hother : other = .blob r.offset
    · rw [if_pos hother]
      rw [if_neg (hother ▸ hne)] at hinsert
      rw [if_pos hother] at herase
      exact hinsert.trans herase
    · rw [if_neg hother]
      rw [if_neg hother] at herase
      rw [herase] at hinsert
      exact hinsert

/-- A new slot for a blob that moves shows the old payload, as far as the old slot goes, and the
data. -/
theorem movedSlot_cases (ha : InOrder base (c, h)) {r : BlobRef} (data : List UInt8)
    (hlive : c.size? (.blob r.offset) = some r.capacity) {capacity : Nat}
    (hslot : c.slotSize (max (headerLength + (r.length + data.length)) (r.capacity * 2)) =
      .ok capacity) :
    (∃ b f, c.withSpace (allocateFilled c.space h capacity (fillMoved r data)) = .fail b f ∧
        Kept (c, h) b) ∨
      ∃ s₁ h₁ offset payload, c.withSpace (allocateFilled c.space h capacity (fillMoved r data)) =
          .ok ({ c with space := s₁ }, h₁) offset ∧
        payload.length = r.length ∧
        (∀ n ≤ r.length, headerLength + n ≤ r.capacity →
          payload.take n = shown (c.space, h) (r.offset + headerLength) n) ∧
        Placed (c, h) ({ c with space := s₁, blobs := c.blobs.insert offset capacity }, h₁)
          (.blob offset) capacity (stored (payload ++ data)) := by
  have hsub : Finset.Ico r.offset (r.offset + r.capacity) ⊆ c.space.used :=
    ha.slots.subset_used hlive
  have hcases := slot_cases ha hslot
    (Q := fun bytes => ∃ payload, bytes = stored (payload ++ data) ∧ payload.length = r.length ∧
      ∀ n ≤ r.length, headerLength + n ≤ r.capacity →
        payload.take n = shown (c.space, h) (r.offset + headerLength) n)
    fun s' h' offset hhands hfits hle => by
      rcases fillMoved_cases hhands.stands r data (by omega) hle with
        hfail | ⟨b, hok, hfills, hin⟩
      · exact .inl hfail
      · refine .inr ⟨b, _, hok, hfills, _, rfl, length_shown hhands.stands hin, ?_⟩
        intro n hn hinside
        rw [take_shown _ _ hn]
        exact hhands.kept.shown ((Finset.Ico_subset_Ico (by omega) (by omega)).trans hsub)
  rcases hcases with hfail |
    ⟨s₁, h₁, offset, bytes, heq, ⟨payload, hbytes, hpayload, hold⟩, hplaced⟩
  · exact .inl hfail
  · rw [hbytes] at hplaced
    exact .inr ⟨s₁, h₁, offset, payload, heq, hpayload, hold,
      hplaced (.blob offset) { c with space := s₁, blobs := _ } rfl rfl rfl
        (size?_insertBlob c s₁ offset capacity)⟩

theorem appendMoving_cases (ha : InOrder base (c, h)) {r : BlobRef} (data : List UInt8)
    (hlive : c.size? (.blob r.offset) = some r.capacity) :
    (∃ b f, c.appendMoving h r data = .fail b f ∧ Kept (c, h) b) ∨
      ∃ b r', c.appendMoving h r data = .ok b r' ∧
        Steps base (c, h) (.appendBlob r data) (some (.ref r')) b := by
  unfold appendMoving
  cases hslot : c.slotSize (max (headerLength + (r.length + data.length)) (r.capacity * 2)) with
  | error f =>
    simp only [hslot]
    exact .inl ⟨_, f, rfl, .refl ha.stands⟩
  | ok capacity =>
    rcases movedSlot_cases ha data hlive hslot with ⟨b, f, heq, hkept⟩ |
      ⟨s₁, h₁, offset, payload, heq, hpayload, hold, hblob⟩
    · simp only [hslot, heq]
      exact .inl ⟨b, f, rfl, hkept⟩
    · obtain ⟨s₂, hr, hdropped⟩ := releaseMoved_ok ha hlive hblob
      refine .inr ⟨_, ⟨offset, capacity, r.length + data.length⟩, ?_,
        .moved hlive hpayload hold rfl hblob hdropped⟩
      simp only [hslot, heq, Outcome.andThen_ok]
      rw [hr]
      rfl

/-! ### All slots -/

/-- Slots in use and apart from each other are returned one after the other. -/
theorem releaseSlots_ok {slots : List (Nat × Nat)} (hs : Stands (c.space, h))
    (hsizes : ∀ slot ∈ slots, 0 < slot.2)
    (hused : ∀ slot ∈ slots, Finset.Ico slot.1 (slot.1 + slot.2) ⊆ c.space.used)
    (hapart : slots.Pairwise fun s t =>
      Disjoint (Finset.Ico s.1 (s.1 + s.2)) (Finset.Ico t.1 (t.1 + t.2))) :
    ∃ s, c.releaseSlots h slots = .ok ({ c with space := s }, h) () ∧ Stands (s, h) ∧
      s.logicalSize = c.space.logicalSize ∧
      (∀ x, x ∈ s.used ↔ x ∈ c.space.used ∧
        ∀ slot ∈ slots, x ∉ Finset.Ico slot.1 (slot.1 + slot.2)) ∧
      s.image h.disk = c.space.image h.disk := by
  induction slots generalizing c with
  | nil => exact ⟨c.space, rfl, hs, rfl, fun x => by simp, rfl⟩
  | cons slot rest ih =>
    obtain ⟨hfirst, hrest⟩ := List.pairwise_cons.1 hapart
    obtain ⟨s, hr, hstands, hlength, hafter, himage⟩ := releaseSlot_ok c hs
      (hsizes slot List.mem_cons_self) (hused slot List.mem_cons_self)
    have hstill : ∀ t ∈ rest, Finset.Ico t.1 (t.1 + t.2) ⊆ s.used := by
      intro t ht x hx
      rw [hafter, Finset.mem_sdiff]
      exact ⟨hused t (List.mem_cons_of_mem _ ht) hx,
        Finset.disjoint_right.1 (hfirst t ht) hx⟩
    obtain ⟨s', hr', hstands', hlength', hafter', himage'⟩ := ih (c := { c with space := s })
      hstands (fun t ht => hsizes t (List.mem_cons_of_mem _ ht)) hstill hrest
    refine ⟨s', ?_, hstands', hlength'.trans hlength, ?_, himage'.trans himage⟩
    · rw [releaseSlots, hr]
      exact hr'
    · intro x
      rw [hafter', hafter, Finset.mem_sdiff, List.forall_mem_cons, and_assoc]

/-- The slots that a cache lists are apart from each other. -/
theorem entries_apart (ha : Slots base c) :
    (c.messages.entries ++ c.blobs.entries).Pairwise fun s t =>
      Disjoint (Finset.Ico s.1 (s.1 + s.2)) (Finset.Ico t.1 (t.1 + t.2)) := by
  have hmessage : ∀ {e}, e ∈ c.messages.entries → c.size? (.message e.1) = some e.2 :=
    fun he => c.messages.get?_eq_some_iff.2 he
  have hblob : ∀ {e}, e ∈ c.blobs.entries → c.size? (.blob e.1) = some e.2 :=
    fun he => c.blobs.get?_eq_some_iff.2 he
  refine List.pairwise_append.2 ⟨?_, ?_, ?_⟩
  · refine c.messages.sorted.imp_of_mem ?_
    intro s t hs ht hlt
    exact ha.apart (hmessage hs) (hmessage ht) (by simp; omega)
  · refine c.blobs.sorted.imp_of_mem ?_
    intro s t hs ht hlt
    exact ha.apart (hblob hs) (hblob ht) (by simp; omega)
  · intro s hs t ht
    exact ha.apart (hmessage hs) (hblob ht) (by simp)

theorem mem_entries_iff {e : Nat × Nat} : e ∈ c.messages.entries ++ c.blobs.entries ↔
    ∃ item : Item, item.offset = e.1 ∧ c.size? item = some e.2 := by
  rw [List.mem_append, ← Index.get?_eq_some_iff, ← Index.get?_eq_some_iff]
  constructor
  · rintro (h | h)
    · exact ⟨.message e.1, rfl, h⟩
    · exact ⟨.blob e.1, rfl, h⟩
  · rintro ⟨item, hoffset, h⟩
    cases item with
    | message offset =>
      cases hoffset
      exact .inl h
    | blob offset =>
      cases hoffset
      exact .inr h

theorem clear_ok (ha : InOrder base (c, h)) :
    ∃ b, c.clear h = .ok b () ∧ Emptied base (c, h) b := by
  have hslot : ∀ slot ∈ c.messages.entries ++ c.blobs.entries, 0 < slot.2 ∧
      Finset.Ico slot.1 (slot.1 + slot.2) ⊆ c.space.used := by
    intro slot hmem
    obtain ⟨item, hoffset, hlive⟩ := mem_entries_iff.1 hmem
    rw [← hoffset]
    exact ⟨ha.slots.nonempty hlive, ha.slots.subset_used hlive⟩
  obtain ⟨s, hr, hstands, hlength, hused, himage⟩ :=
    releaseSlots_ok (c := { c with messages := .empty, blobs := .empty }) ha.stands
      (fun slot hmem => (hslot slot hmem).1) (fun slot hmem => (hslot slot hmem).2)
      (entries_apart ha.slots)
  refine ⟨_, hr, hstands, rfl, fun item => by cases item <;> rfl, hlength, ?_, himage⟩
  ext x
  have hx : x ∈ c.space.used ↔ _ := ha.slots.used x
  rw [hused, hx]
  constructor
  · rintro ⟨hx | ⟨item, size, hlive, hin⟩, hout⟩
    · exact hx
    · exact absurd hin (hout (item.offset, size) (mem_entries_iff.2 ⟨item, rfl, hlive⟩))
  · intro hx
    refine ⟨.inl hx, fun slot hmem hin => ?_⟩
    obtain ⟨item, hoffset, hlive⟩ := mem_entries_iff.1 hmem
    rw [← hoffset] at hin
    exact Finset.disjoint_left.1 (ha.slots.outside hlive) hx hin

/-! ## Any request -/

/-- Whatever a cache in order is asked, it takes one of the steps. -/
theorem steps_serve (ha : InOrder base (c, h)) (request : Request) :
    Steps base (c, h) request (c.reply h request) (c.serve h request) := by
  cases request with
  | putMessage message =>
    simp only [reply, serve]
    rcases putMessage_cases ha message with ⟨b, f, heq, hkept⟩ | ⟨b, offset, size, heq, hplaced⟩
    · rw [heq]
      exact .refused hkept
    · rw [heq]
      exact .message hplaced
  | storeInSlot offset length bytes =>
    simp only [reply, serve]
    cases hstore : c.storeInSlot? offset length bytes with
    | none => exact .refused (.refl ha.stands)
    | some c' =>
      obtain ⟨size, hwritten⟩ := storeInSlot_ok ha hstore
      exact .stored hwritten
  | releaseMessage offset =>
    simp only [reply, serve]
    rcases releaseMessage_cases ha offset with ⟨f, heq⟩ | ⟨b, size, heq, hdropped⟩
    · rw [heq]
      exact .refused (.refl ha.stands)
    · rw [heq]
      exact .messageReleased hdropped
  | putBlob data =>
    simp only [reply, serve]
    rcases putBlob_cases ha data with ⟨b, f, heq, hkept⟩ | ⟨b, r, heq, hlength, hplaced⟩
    · rw [heq]
      exact .refused hkept
    · rw [heq]
      exact .blob hlength hplaced
  | appendBlob r data =>
    simp only [reply, serve, appendBlob]
    by_cases hlive : c.size? (.blob r.offset) = some r.capacity
    · rw [if_pos (holdsBlob_iff.2 hlive)]
      by_cases hfits : headerLength + (r.length + data.length) ≤ r.capacity
      · obtain ⟨b, heq, hwritten⟩ := appendInPlace_ok ha hlive hfits
        rw [if_pos hfits, heq]
        exact .appended (by omega) hwritten
      · rw [if_neg hfits]
        rcases appendMoving_cases ha data hlive with ⟨b, f, heq, hkept⟩ | ⟨b, r', heq, hsteps⟩
        · rw [heq]
          exact .refused hkept
        · rw [heq]
          exact hsteps
    · rw [if_neg fun hholds => hlive (holdsBlob_iff.1 hholds)]
      exact .refused (.refl ha.stands)
  | releaseBlob r =>
    simp only [reply, serve]
    rcases releaseBlob_cases ha r with ⟨f, heq⟩ | ⟨b, heq, hdropped⟩
    · rw [heq]
      exact .refused (.refl ha.stands)
    · rw [heq]
      exact .blobReleased hdropped
  | clear =>
    simp only [reply, serve]
    obtain ⟨b, heq, hemptied⟩ := clear_ok ha
    rw [heq]
    exact .cleared hemptied

theorem Steps.inOrder {a b : StagingCache × Host} {request : Request} {reply : Option Reply}
    (h : Steps base a request reply b) (ha : InOrder base a) : InOrder base b := by
  cases h with
  | refused h => exact ha.kept h
  | message h => exact ha.placed h
  | stored h => exact ha.written (h [] (Nat.zero_le _) rfl)
  | messageReleased h => exact ha.dropped h
  | blob hlength h => exact ha.placed h
  | appended hfits h => exact ha.written h
  | moved hlive hpayload hold hlength hplaced hdropped =>
    exact (ha.placed hplaced).dropped hdropped
  | blobReleased h => exact ha.dropped h
  | cleared h => exact ha.emptied h

/-! ## Conversations -/

/-- A cache is asked one thing after the other. Meanwhile its host changes, but not what the files
of its space hold. -/
inductive Talks (a : StagingCache × Host) :
    List (Request × Option Reply) → StagingCache × Host → Prop
  | start : Talks a [] a
  | ask {log : List (Request × Option Reply)} {c : StagingCache} {h : Host}
      (htalks : Talks a log (c, h)) (request : Request) :
      Talks a (log ++ [(request, c.reply h request)]) (c.serve h request)
  | wait {log : List (Request × Option Reply)} {c : StagingCache} {h h' : Host}
      (htalks : Talks a log (c, h)) (hstands : Stands (c.space, h'))
      (hsame : ∀ f ∈ c.space.files.files, h'.disk.content? f.handle = h.disk.content? f.handle) :
      Talks a log (c, h')

theorem Talks.inOrder {a b : StagingCache × Host} {log : List (Request × Option Reply)}
    (h : Talks a log b) (ha : InOrder base a) : InOrder base b := by
  induction h with
  | start => exact ha
  | ask _ request ih => exact (steps_serve ih request).inOrder ih
  | wait _ hstands _ ih => exact ⟨hstands, ih.slots⟩

end StagingCache

end SpillStorage
