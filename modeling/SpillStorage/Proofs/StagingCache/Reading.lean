import SpillStorage.Proofs.StagingCache.Steps

/-!
What is read from a staging cache, and which requests leave it alone.

What is proved:
  1. `Shows.message_eq` and `blob_eq_ok_iff`: what is read is what the slot shows.
  2. `Steps.spared`: a request that is refused, or that does not name an item, leaves the slot of
     the item and its bytes alone. `Spared.message_eq` and `Spared.blob_eq`: then it reads the same.
  3. `appendBlob_ok`: an accepted append keeps as many old bytes as the reference says the blob has.
     Hence `append_exact_iff`: it appends to what was stored exactly if the reference is right.

The length in a reference is nowhere compared with the length in the slot. (3) says what follows.
-/

namespace SpillStorage.StagingCache

open Space

variable {base : Finset Nat} {a b d : StagingCache × Host} {c c' : StagingCache} {h h' : Host}
  {item other : Item} {size : Nat} {bytes : List UInt8}

/-! ## Slots that show something -/

/-- The item is live, and its slot shows bytes from its start on. -/
def Shows (a : StagingCache × Host) (item : Item) (bytes : List UInt8) : Prop :=
  ∃ size, a.1.size? item = some size ∧ bytes.length ≤ size ∧
    shown (held a) item.offset bytes.length = bytes

theorem Placed.size?_self (hp : Placed a b item size bytes) : b.1.size? item = some size := by
  rw [hp.sizes, if_pos rfl]

theorem Placed.shows_self (hp : Placed a b item size bytes) : Shows b item bytes :=
  ⟨size, hp.size?_self, hp.fits, hp.shows⟩

theorem Written.size?_self (hw : Written a b item size bytes) : b.1.size? item = some size :=
  (hw.sizes item).trans hw.live

theorem Written.shows_self (hw : Written a b item size bytes) : Shows b item bytes :=
  ⟨size, hw.size?_self, hw.fills.fits, hw.fills.shows⟩

/-- Where a blob is stored, its slot shows the length first and then the payload. -/
theorem Shows.parts {payload : List UInt8} (hshows : Shows a item (stored payload)) :
    shown (held a) item.offset headerLength = LittleEndian.encode payload.length ∧
      shown (held a) (item.offset + headerLength) payload.length = payload := by
  obtain ⟨size, -, -, hshown⟩ := hshows
  have htake : (shown (held a) item.offset (headerLength + payload.length)).take headerLength =
      shown (held a) item.offset headerLength := take_shown _ _ (Nat.le_add_right _ _)
  rw [length_stored] at hshown
  rw [hshown, stored, List.take_left' (length_encode _)] at htake
  refine ⟨htake.symm, ?_⟩
  rw [shown_append, stored, htake] at hshown
  exact List.append_cancel_left hshown

/-! ## Reading -/

theorem Shows.message_eq (ha : InOrder base (c, h)) {offset : Nat}
    (hshows : Shows (c, h) (.message offset) bytes) {length : Nat} (hle : length ≤ bytes.length) :
    c.message h offset length = .ok (bytes.take length) := by
  obtain ⟨size, hlive, hfits, hshown⟩ := hshows
  have hstands : Stands (c.space, h) := ha.stands
  have hslot : offset + size ≤ c.space.logicalSize := ha.slot_le hlive
  have hholds : c.holdsMessage offset length = true := by
    rw [holdsMessage, show c.messages.get? offset = some size from hlive]
    exact decide_eq_true (by omega)
  have htake := take_shown (c.space, h) offset hle
  rw [show shown (c.space, h) offset bytes.length = bytes from hshown] at htake
  rw [message, if_pos hholds, read_complete hstands (by omega), htake]

/-- A blob is read exactly if the reference names its slot, the slot holds the payload, and the
header says how long it is. -/
theorem blob_eq_ok_iff (ha : InOrder base (c, h)) {r : BlobRef} {payload : List UInt8} :
    c.blob h r = .ok payload ↔
      c.size? (.blob r.offset) = some r.capacity ∧ headerLength + payload.length ≤ r.capacity ∧
        LittleEndian.decode (shown (c.space, h) r.offset headerLength) = payload.length ∧
        shown (c.space, h) (r.offset + headerLength) payload.length = payload := by
  by_cases hlive : c.size? (.blob r.offset) = some r.capacity
  · have hstands : Stands (c.space, h) := ha.stands
    have hslot : r.offset + r.capacity ≤ c.space.logicalSize := ha.slot_le hlive
    rw [blob, if_pos (holdsBlob_iff.2 hlive)]
    by_cases hheader : r.offset + headerLength ≤ c.space.logicalSize
    · rw [read_complete hstands hheader]
      simp only
      generalize LittleEndian.decode (shown (c.space, h) r.offset headerLength) = length
      by_cases hfits : headerLength + length ≤ r.capacity
      · have hin : r.offset + headerLength + length ≤ c.space.logicalSize := by omega
        have hlength := length_shown hstands hin
        rw [if_neg (Nat.not_lt.2 hfits), read_complete hstands hin, Except.ok.injEq]
        constructor
        · intro hpayload
          rw [← hpayload, hlength]
          exact ⟨hlive, hfits, rfl, rfl⟩
        · intro hread
          obtain ⟨-, -, heq, hpayload⟩ := hread
          rw [heq]
          exact hpayload
      · rw [if_pos (Nat.not_le.1 hfits)]
        constructor
        · intro hread
          cases hread
        · intro hread
          obtain ⟨-, hle, heq, -⟩ := hread
          exact absurd (heq ▸ hle) hfits
    · rw [read_refused hstands (Nat.not_le.1 hheader)]
      constructor
      · intro hread
        cases hread
      · intro hread
        have := hread.2.1
        omega
  · rw [blob, if_neg fun hholds => hlive (holdsBlob_iff.1 hholds)]
    constructor
    · intro hread
      cases hread
    · intro hread
      exact absurd hread.1 hlive

theorem Shows.blob_eq (ha : InOrder base (c, h)) {r : BlobRef} {payload : List UInt8}
    (hshows : Shows (c, h) (.blob r.offset) (stored payload))
    (hlive : c.size? (.blob r.offset) = some r.capacity) : c.blob h r = .ok payload := by
  obtain ⟨hheader, hpayload⟩ := hshows.parts
  obtain ⟨size, hsize, hfits, -⟩ := hshows
  rw [length_stored] at hfits
  have hcapacity : size = r.capacity := Option.some.inj (hsize.symm.trans hlive)
  refine (blob_eq_ok_iff ha).2 ⟨hlive, by omega, ?_, hpayload⟩
  -- the slot lies in the space, so the header has room for the length
  have hslot : r.offset + r.capacity ≤ c.space.logicalSize := ha.slot_le hlive
  have hbounded : c.space.logicalSize < Offset.bound := ha.stands.sound.bounded
  have hlt : payload.length < Offset.bound := by omega
  calc LittleEndian.decode (shown (c.space, h) r.offset headerLength)
      = LittleEndian.decode (LittleEndian.encode payload.length) := congrArg _ hheader
    _ = payload.length % Nat.pow 256 LittleEndian.width := LittleEndian.decode_digits _ _
    _ = payload.length := Nat.mod_eq_of_lt hlt

/-! ## Items that are left alone -/

/-- The item, if it is live, keeps its slot, and the slot its bytes. -/
def Spared (item : Item) (a b : StagingCache × Host) : Prop :=
  ∀ size, a.1.size? item = some size →
    b.1.size? item = some size ∧ Keeps (item.bytes size) (held a) (held b)

theorem Spared.trans (hab : Spared item a b) (hbd : Spared item b d) : Spared item a d := by
  intro size hlive
  obtain ⟨hlive', hkeeps⟩ := hab size hlive
  obtain ⟨hlive'', hkeeps'⟩ := hbd size hlive'
  exact ⟨hlive'', hkeeps.trans hkeeps'⟩

theorem Kept.spared (hk : Kept a b) (ha : InOrder base a) (item : Item) : Spared item a b := by
  intro size hlive
  obtain ⟨amount, -, hidles⟩ := hk.idles
  exact ⟨(hk.sizes item).trans hlive, hidles.kept.mono (ha.slots.subset_used hlive)⟩

theorem Placed.spared (hp : Placed a b item size bytes) (ha : InOrder base a) (other : Item) :
    Spared other a b := by
  intro n hlive
  refine ⟨?_, hp.hands.kept.mono (ha.slots.subset_used hlive)⟩
  rw [hp.sizes, if_neg (ha.ne_of_live hp hlive)]
  exact hlive

theorem Written.spared (hw : Written a b item size bytes) (ha : InOrder base a)
    (hne : other ≠ item) : Spared other a b := by
  intro n hlive
  exact ⟨(hw.sizes other).trans hlive, hw.fills.kept _ (ha.slots.apart hlive hw.live hne)⟩

theorem Dropped.spared (hd : Dropped a b item size) (hne : other ≠ item) : Spared other a b := by
  intro n hlive
  refine ⟨?_, .of_image_eq hd.image _⟩
  rw [hd.sizes, if_neg hne]
  exact hlive

theorem Spared.shows (hspared : Spared item a b) (hshows : Shows a item bytes) :
    Shows b item bytes := by
  obtain ⟨size, hlive, hfits, hshown⟩ := hshows
  obtain ⟨hlive', hkeeps⟩ := hspared size hlive
  refine ⟨size, hlive', hfits, ?_⟩
  rw [hkeeps.shown (Finset.Ico_subset_Ico (Nat.le_refl _) (by omega))]
  exact hshown

/-- Of a message that is left alone the same is read, as much of its slot as is asked for. -/
theorem Spared.message_eq {offset : Nat} (hspared : Spared (.message offset) (c, h) (c', h'))
    (ha : InOrder base (c, h)) (hb : InOrder base (c', h'))
    (hlive : c.size? (.message offset) = some size) (length : Nat) :
    c'.message h' offset length = c.message h offset length := by
  obtain ⟨hlive', hkeeps⟩ := hspared size hlive
  have hstands : Stands (c.space, h) := ha.stands
  have hstands' : Stands (c'.space, h') := hb.stands
  have hslot : offset + size ≤ c.space.logicalSize := ha.slot_le hlive
  have hslot' : offset + size ≤ c'.space.logicalSize := hb.slot_le hlive'
  have hholds : c.holdsMessage offset length = decide (length ≤ size) := by
    rw [holdsMessage, show c.messages.get? offset = some size from hlive]
  have hholds' : c'.holdsMessage offset length = decide (length ≤ size) := by
    rw [holdsMessage, show c'.messages.get? offset = some size from hlive']
  rw [message, message, hholds, hholds']
  by_cases hle : length ≤ size
  · rw [if_pos (decide_eq_true hle), if_pos (decide_eq_true hle),
      read_complete hstands (by omega), read_complete hstands' (by omega)]
    exact congrArg _ (hkeeps.shown (Finset.Ico_subset_Ico (Nat.le_refl _)
      (Nat.add_le_add_left hle offset)))
  · rw [if_neg (by simpa using hle), if_neg (by simpa using hle)]

/-- Of a blob that is left alone the same is read, through whatever reference. -/
theorem Spared.blob_eq {r : BlobRef} (hspared : Spared (.blob r.offset) (c, h) (c', h'))
    (ha : InOrder base (c, h)) (hb : InOrder base (c', h'))
    (hlive : c.size? (.blob r.offset) = some size) (hheader : headerLength ≤ size) :
    c'.blob h' r = c.blob h r := by
  obtain ⟨hlive', hkeeps⟩ := hspared size hlive
  have hstands : Stands (c.space, h) := ha.stands
  have hstands' : Stands (c'.space, h') := hb.stands
  have hslot : r.offset + size ≤ c.space.logicalSize := ha.slot_le hlive
  have hslot' : r.offset + size ≤ c'.space.logicalSize := hb.slot_le hlive'
  have hholds : c'.holdsBlob r = c.holdsBlob r := by
    rw [Bool.eq_iff_iff, holdsBlob_iff, holdsBlob_iff, hlive, hlive']
  have hsame : shown (c'.space, h') r.offset headerLength =
      shown (c.space, h) r.offset headerLength :=
    hkeeps.shown (Finset.Ico_subset_Ico (Nat.le_refl _) (Nat.add_le_add_left hheader _))
  rw [blob, blob, hholds]
  by_cases hnamed : c.holdsBlob r = true
  · have hcapacity : size = r.capacity :=
      Option.some.inj (hlive.symm.trans (holdsBlob_iff.1 hnamed))
    rw [if_pos hnamed, if_pos hnamed, read_complete hstands (by omega),
      read_complete hstands' (by omega), hsame]
    simp only
    generalize LittleEndian.decode (shown (c.space, h) r.offset headerLength) = length
    by_cases hfits : headerLength + length ≤ r.capacity
    · rw [if_neg (Nat.not_lt.2 hfits), if_neg (Nat.not_lt.2 hfits),
        read_complete hstands (by omega), read_complete hstands' (by omega)]
      exact congrArg _ (hkeeps.shown (Finset.Ico_subset_Ico (Nat.le_add_right _ _)
        (by simp only [Item.offset]; omega)))
    · rw [if_pos (Nat.not_le.1 hfits), if_pos (Nat.not_le.1 hfits)]
  · rw [if_neg hnamed, if_neg hnamed]

/-! ## Requests -/

/-- The request is about the item. -/
def Request.Names (item : Item) : Request → Prop
  | .putMessage _ => False
  | .storeInSlot offset _ _ => item = .message offset
  | .releaseMessage offset => item = .message offset
  | .putBlob _ => False
  | .appendBlob r _ => item = .blob r.offset
  | .releaseBlob r => item = .blob r.offset
  | .clear => True

/-- A request that is refused leaves every item alone, and one that is met those that it does not
name. -/
theorem Steps.spared {request : Request} {reply : Option Reply}
    (hsteps : Steps base a request reply b) (ha : InOrder base a)
    (hquiet : reply = none ∨ ¬ request.Names item) : Spared item a b := by
  have hunnamed : ∀ {answer}, reply = some answer → ¬ request.Names item := by
    intro answer hreply
    apply hquiet.resolve_left
    rw [hreply]
    exact Option.some_ne_none answer
  cases hsteps with
  | refused hkept => exact hkept.spared ha item
  | message hplaced => exact hplaced.spared ha item
  | stored hwritten => exact (hwritten [] (Nat.zero_le _) rfl).spared ha (hunnamed rfl)
  | messageReleased hdropped => exact hdropped.spared (hunnamed rfl)
  | blob hlength hplaced => exact hplaced.spared ha item
  | appended hfits hwritten => exact hwritten.spared ha (hunnamed rfl)
  | moved hlive hpayload hold hlength hplaced hdropped =>
    exact (hplaced.spared ha item).trans (hdropped.spared (hunnamed rfl))
  | blobReleased hdropped => exact hdropped.spared (hunnamed rfl)
  | cleared hemptied => exact absurd trivial (hunnamed rfl)

/-- An accepted append leaves a blob of as many old bytes as the reference says, and the data. The
old bytes are those that were stored, as far as both go. -/
theorem appendBlob_ok (ha : InOrder base (c, h)) {r r' : BlobRef} {payload data : List UInt8}
    (hblob : c.blob h r = .ok payload) (happend : c.appendBlob h r data = .ok (c', h') r') :
    ∃ old, old.length = r.length ∧ old.take payload.length = payload.take old.length ∧
      c'.blob h' r' = .ok (old ++ data) ∧ r'.length = (old ++ data).length := by
  obtain ⟨hlive, hfits, -, hpayload⟩ := (blob_eq_ok_iff ha).1 hblob
  have hslot : r.offset + r.capacity ≤ c.space.logicalSize := ha.slot_le hlive
  have hsteps := steps_serve ha (.appendBlob r data)
  have hb := hsteps.inOrder ha
  simp only [reply, serve, happend] at hsteps hb
  -- bytes that agree with the slot agree with the payload
  have agree : ∀ old : List UInt8, old.length = r.length →
      (∀ n ≤ r.length, headerLength + n ≤ r.capacity →
        old.take n = shown (c.space, h) (r.offset + headerLength) n) →
      old.take payload.length = payload.take old.length := by
    intro old hlength hold
    have htake := take_shown (c.space, h) (r.offset + headerLength)
      (Nat.min_le_left payload.length old.length)
    rw [hpayload] at htake
    rw [List.take_eq_take_min, List.take_eq_take_min (l := payload), Nat.min_comm old.length, htake]
    exact hold _ (by omega) (by omega)
  cases hsteps with
  | appended hinside hwritten =>
    have hlength : (shown (c.space, h) (r.offset + headerLength) r.length).length = r.length :=
      length_shown ha.stands
        (show r.offset + headerLength + r.length ≤ c.space.logicalSize by omega)
    refine ⟨_, hlength, agree _ hlength fun n hn _ => take_shown _ _ hn, ?_, ?_⟩
    · exact hwritten.shows_self.blob_eq (r := { r with length := _ }) hb hwritten.size?_self
    · rw [List.length_append, hlength]
  | @moved _ old _ _ middle _ hlive' hlength hold hsum hplaced hdropped =>
    -- the new slot is not the old one, so it is left alone when the old one is returned
    have hne := (ha.ne_of_live hplaced hlive).symm
    have hspared := hdropped.spared hne
    refine ⟨old, hlength, agree old hlength hold, ?_, ?_⟩
    · exact (hspared.shows hplaced.shows_self).blob_eq hb (hspared _ hplaced.size?_self).1
    · rw [List.length_append, hlength]
      exact hsum

/-- What is read after an accepted append is what was read before with the data behind it, exactly
if the reference says how long the blob was. -/
theorem append_exact_iff (ha : InOrder base (c, h)) {r r' : BlobRef} {payload data : List UInt8}
    (hblob : c.blob h r = .ok payload) (happend : c.appendBlob h r data = .ok (c', h') r') :
    (c'.blob h' r' = .ok (payload ++ data) ∧ r'.length = (payload ++ data).length) ↔
      r.length = payload.length := by
  obtain ⟨old, hlength, hagree, hread, hsum⟩ := appendBlob_ok ha hblob happend
  rw [hread, Except.ok.injEq, hsum]
  constructor
  · intro hexact
    have heq := hexact.2
    rw [List.length_append, List.length_append] at heq
    omega
  · intro heq
    rw [hlength, heq, List.take_length, List.take_of_length_le (by omega)] at hagree
    rw [hagree]
    exact ⟨rfl, rfl⟩

end SpillStorage.StagingCache
