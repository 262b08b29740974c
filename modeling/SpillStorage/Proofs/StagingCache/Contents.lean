import SpillStorage.Proofs.StagingCache.Reading

/-!
What a staging cache holds, told from the requests that it met.

What is proved:
  1. `Displays.kept`, `placed`, `written` and `dropped`: what slots show, through all that can
     happen to them.
  2. `Steps.holds`: what is told from the requests is what the cache holds, as long as appends go by
     the references that were answered last. A request that is refused changes nothing of it.
  3. `Talks.holds`: so it is through every conversation. `Holds.message_eq` and `Holds.blob_eq`:
     what is told is what is read.

`Contents` is told from requests and answers alone: where in the space an item lies is an answer,
but nothing else about the space is used.
-/

namespace SpillStorage.StagingCache

open Space

variable {base : Finset Nat} {a b : StagingCache × Host} {c c' : StagingCache} {h h' : Host}
  {item other : Item} {size : Nat} {bytes : List UInt8}

/-! ## What slots show -/

/-- Slots show what is expected of them, and there are no others. -/
structure Displays (expected : Item → Option (List UInt8)) (a : StagingCache × Host) : Prop where
  shows : ∀ {item bytes}, expected item = some bytes → Shows a item bytes
  dead : ∀ {item}, expected item = none → a.1.size? item = none

namespace Displays

variable {expected : Item → Option (List UInt8)}

theorem of_live (hd : Displays expected a) (hlive : a.1.size? item = some size) :
    ∃ bytes, expected item = some bytes ∧ Shows a item bytes := by
  cases hitem : expected item with
  | none =>
    rw [hd.dead hitem] at hlive
    cases hlive
  | some bytes => exact ⟨bytes, rfl, hd.shows hitem⟩

theorem isSome_eq (hd : Displays expected a) (item : Item) :
    (expected item).isSome = (a.1.size? item).isSome := by
  cases hitem : expected item with
  | none =>
    rw [hd.dead hitem]
    rfl
  | some bytes =>
    obtain ⟨size, hlive, -⟩ := hd.shows hitem
    rw [hlive]
    rfl

theorem kept (hd : Displays expected a) (ha : InOrder base a) (hk : Kept a b) :
    Displays expected b :=
  ⟨fun hitem => (hk.spared ha _).shows (hd.shows hitem),
    fun hitem => (hk.sizes _).trans (hd.dead hitem)⟩

/-- One item shows something new. -/
theorem update (hd : Displays expected a) (hshows : Shows b item bytes)
    (hspared : ∀ other, other ≠ item → Spared other a b)
    (hsizes : ∀ other, other ≠ item → b.1.size? other = a.1.size? other) :
    Displays (Function.update expected item (some bytes)) b := by
  refine ⟨?_, ?_⟩
  · intro other shown hother
    rw [Function.update_apply] at hother
    by_cases heq : other = item
    · rw [if_pos heq] at hother
      rw [heq, ← Option.some.inj hother]
      exact hshows
    · rw [if_neg heq] at hother
      exact (hspared other heq).shows (hd.shows hother)
  · intro other hother
    rw [Function.update_apply] at hother
    by_cases heq : other = item
    · rw [if_pos heq] at hother
      cases hother
    · rw [if_neg heq] at hother
      exact (hsizes other heq).trans (hd.dead hother)

theorem placed (hd : Displays expected a) (ha : InOrder base a)
    (hp : Placed a b item size bytes) : Displays (Function.update expected item (some bytes)) b :=
  hd.update hp.shows_self (fun other _ => hp.spared ha other) fun other hne => by
    rw [hp.sizes, if_neg hne]

theorem written (hd : Displays expected a) (ha : InOrder base a)
    (hw : Written a b item size bytes) : Displays (Function.update expected item (some bytes)) b :=
  hd.update hw.shows_self (fun _ hne => hw.spared ha hne) fun other _ => hw.sizes other

theorem dropped (hd : Displays expected a) (hdropped : Dropped a b item size) :
    Displays (Function.update expected item none) b := by
  refine ⟨?_, ?_⟩
  · intro other shown hother
    rw [Function.update_apply] at hother
    by_cases heq : other = item
    · rw [if_pos heq] at hother
      cases hother
    · rw [if_neg heq] at hother
      exact (hdropped.spared heq).shows (hd.shows hother)
  · intro other hother
    rw [Function.update_apply] at hother
    rw [hdropped.sizes]
    by_cases heq : other = item
    · rw [if_pos heq]
    · rw [if_neg heq] at hother
      rw [if_neg heq]
      exact hd.dead hother

/-- Nothing is expected where nothing is live. -/
theorem of_none (hexpected : ∀ item, expected item = none)
    (hsizes : ∀ item, b.1.size? item = none) : Displays expected b := by
  refine ⟨?_, fun _ => hsizes _⟩
  intro item bytes hitem
  rw [hexpected] at hitem
  cases hitem

end Displays

/-! ## Contents -/

/-- What a cache should hold. -/
structure Contents where
  messages : Index (List UInt8)
  /-- Payloads, and the references that were answered last, by offset. -/
  blobs : Index (BlobRef × List UInt8)

namespace Contents

def empty : Contents := ⟨.empty, .empty⟩

/-- The contents after a request and its answer, if it was met. -/
def after (g : Contents) : Request → Option Reply → Contents
  | .putMessage message, some (.place offset) =>
    { g with messages := g.messages.insert offset message }
  | .storeInSlot offset length bytes, some .done =>
    match g.messages.get? offset with
    | some message =>
      { g with messages :=
          g.messages.insert offset (overwritten message 0 (bytes.take length)) }
    | none => g
  | .releaseMessage offset, some .done => { g with messages := g.messages.erase offset }
  | .putBlob data, some (.ref r) => { g with blobs := g.blobs.insert r.offset (r, data) }
  | .appendBlob old data, some (.ref r) =>
    match g.blobs.get? old.offset with
    | some (_, payload) =>
      { g with blobs := (g.blobs.erase old.offset).insert r.offset (r, payload ++ data) }
    | none => g
  | .releaseBlob r, some .done => { g with blobs := g.blobs.erase r.offset }
  | .clear, some .done => empty
  | _, _ => g

/-- The contents after a conversation. -/
def afterAll (g : Contents) (log : List (Request × Option Reply)) : Contents :=
  log.foldl (fun g entry => g.after entry.1 entry.2) g

/-- If the request appends to a live blob, then by the reference that was answered last for it. A
reference that names no live slot does not count: it is refused. -/
def isCurrent (g : Contents) : Request → Bool
  | .appendBlob r _ =>
    match g.blobs.get? r.offset with
    | some (latest, _) => latest.capacity != r.capacity || latest == r
    | none => true
  | _ => true

/-- So it is throughout a conversation. -/
def staysCurrent (g : Contents) : List (Request × Option Reply) → Bool
  | [] => true
  | (request, reply) :: rest => g.isCurrent request && (g.after request reply).staysCurrent rest

/-- What the slot of an item should show. -/
def bytes? (g : Contents) : Item → Option (List UInt8)
  | .message offset => g.messages.get? offset
  | .blob offset => (g.blobs.get? offset).map fun entry => stored entry.2

variable {g : Contents} {log log' : List (Request × Option Reply)}

theorem after_none (g : Contents) (request : Request) : g.after request none = g := by
  cases request <;> rfl

theorem afterAll_append : g.afterAll (log ++ log') = (g.afterAll log).afterAll log' :=
  List.foldl_append

theorem staysCurrent_append :
    g.staysCurrent (log ++ log') = (g.staysCurrent log && (g.afterAll log).staysCurrent log') := by
  induction log generalizing g with
  | nil => simp [staysCurrent, afterAll]
  | cons entry rest ih =>
    simp only [List.cons_append, staysCurrent, ih, afterAll, List.foldl_cons, Bool.and_assoc]

theorem latest_of_isCurrent {r latest : BlobRef} {data payload : List UInt8}
    (hcurrent : g.isCurrent (.appendBlob r data) = true)
    (hget : g.blobs.get? r.offset = some (latest, payload))
    (hcapacity : latest.capacity = r.capacity) : latest = r := by
  simp only [isCurrent, hget, hcapacity, bne_self_eq_false, Bool.false_or] at hcurrent
  exact beq_iff_eq.1 hcurrent

theorem bytes?_insertMessage (g : Contents) (offset : Nat) (message : List UInt8) :
    ({ g with messages := g.messages.insert offset message } : Contents).bytes? =
      Function.update g.bytes? (.message offset) (some message) := by
  funext item
  cases item with
  | message other =>
    simp only [bytes?, Index.get?_insert, Function.update_apply, Item.message.injEq]
  | blob other => rfl

theorem bytes?_eraseMessage (g : Contents) (offset : Nat) :
    ({ g with messages := g.messages.erase offset } : Contents).bytes? =
      Function.update g.bytes? (.message offset) none := by
  funext item
  cases item with
  | message other =>
    simp only [bytes?, Index.get?_erase, Function.update_apply, Item.message.injEq]
  | blob other => rfl

theorem bytes?_insertBlob (g : Contents) (offset : Nat) (r : BlobRef) (payload : List UInt8) :
    ({ g with blobs := g.blobs.insert offset (r, payload) } : Contents).bytes? =
      Function.update g.bytes? (.blob offset) (some (stored payload)) := by
  funext item
  cases item with
  | message other => rfl
  | blob other =>
    simp only [bytes?, Index.get?_insert, Function.update_apply, Item.blob.injEq]
    split <;> rfl

theorem bytes?_eraseBlob (g : Contents) (offset : Nat) :
    ({ g with blobs := g.blobs.erase offset } : Contents).bytes? =
      Function.update g.bytes? (.blob offset) none := by
  funext item
  cases item with
  | message other => rfl
  | blob other =>
    simp only [bytes?, Index.get?_erase, Function.update_apply, Item.blob.injEq]
    split <;> rfl

/-- References lie where they are listed, name live slots, and know the length of their payload. -/
def Refs (g : Contents) (c : StagingCache) : Prop :=
  ∀ offset r payload, g.blobs.get? offset = some (r, payload) →
    r.offset = offset ∧ c.size? (.blob offset) = some r.capacity ∧ r.length = payload.length

namespace Refs

/-- Messages do not matter. -/
theorem congr {g' : Contents} (hr : g.Refs c) (hblobs : g'.blobs = g.blobs)
    (hsizes : ∀ offset, c'.size? (.blob offset) = c.size? (.blob offset)) : g'.Refs c' := by
  intro offset r payload hget
  rw [hsizes]
  exact hr offset r payload (hblobs ▸ hget)

theorem insert (hr : g.Refs c) {r : BlobRef} {payload : List UInt8}
    (hlength : r.length = payload.length) (hself : c'.size? (.blob r.offset) = some r.capacity)
    (hsizes : ∀ other, other ≠ .blob r.offset → c'.size? other = c.size? other) :
    Refs { g with blobs := g.blobs.insert r.offset (r, payload) } c' := by
  intro offset latest payload' hget
  simp only [Index.get?_insert] at hget
  by_cases hoffset : offset = r.offset
  · rw [if_pos hoffset] at hget
    cases hget
    exact ⟨hoffset.symm, hoffset ▸ hself, hlength⟩
  · rw [if_neg hoffset] at hget
    rw [hsizes _ fun heq => hoffset (Item.blob.inj heq)]
    exact hr offset latest payload' hget

theorem erase (hr : g.Refs c) {offset : Nat}
    (hsizes : ∀ other, other ≠ .blob offset → c'.size? other = c.size? other) :
    Refs { g with blobs := g.blobs.erase offset } c' := by
  intro other latest payload hget
  simp only [Index.get?_erase] at hget
  by_cases hoffset : other = offset
  · rw [if_pos hoffset] at hget
    cases hget
  · rw [if_neg hoffset] at hget
    rw [hsizes _ fun heq => hoffset (Item.blob.inj heq)]
    exact hr other latest payload hget

end Refs

end Contents

/-! ## Caches and their contents -/

/-- The cache holds what it should, and nothing else. -/
structure Holds (g : Contents) (a : StagingCache × Host) : Prop where
  displays : Displays g.bytes? a
  refs : g.Refs a.1

namespace Holds

variable {g : Contents}

theorem message_of_live (hg : Holds g a) {offset : Nat}
    (hlive : a.1.size? (.message offset) = some size) :
    ∃ message, g.messages.get? offset = some message ∧ Shows a (.message offset) message :=
  hg.displays.of_live hlive

theorem blob_of_live (hg : Holds g a) {offset : Nat}
    (hlive : a.1.size? (.blob offset) = some size) :
    ∃ r payload, g.blobs.get? offset = some (r, payload) ∧ r.capacity = size ∧
      r.length = payload.length ∧ Shows a (.blob offset) (stored payload) := by
  obtain ⟨bytes, hbytes, hshows⟩ := hg.displays.of_live hlive
  obtain ⟨⟨r, payload⟩, hget, rfl⟩ := Option.map_eq_some_iff.1 hbytes
  obtain ⟨-, hcapacity, hlength⟩ := hg.refs offset r payload hget
  exact ⟨r, payload, hget, Option.some.inj (hcapacity.symm.trans hlive), hlength, hshows⟩

theorem message_eq (hg : Holds g (c, h)) (ha : InOrder base (c, h)) {offset : Nat}
    {message : List UInt8} (hget : g.messages.get? offset = some message) {length : Nat}
    (hle : length ≤ message.length) : c.message h offset length = .ok (message.take length) := by
  have hshows : Shows (c, h) (.message offset) message := hg.displays.shows hget
  exact hshows.message_eq ha hle

theorem blob_eq (hg : Holds g (c, h)) (ha : InOrder base (c, h)) {offset : Nat} {r : BlobRef}
    {payload : List UInt8} (hget : g.blobs.get? offset = some (r, payload)) :
    c.blob h r = .ok payload := by
  obtain ⟨rfl, hlive, -⟩ := hg.refs offset r payload hget
  have hbytes : g.bytes? (.blob r.offset) = some (stored payload) := by
    rw [Contents.bytes?, hget, Option.map_some]
  exact (hg.displays.shows hbytes).blob_eq ha hlive

/-- A blob's slot has room for the header. -/
theorem header_le (hg : Holds g a) {offset : Nat}
    (hlive : a.1.size? (.blob offset) = some size) : headerLength ≤ size := by
  obtain ⟨r, payload, -, -, -, size', hlive', hfits, -⟩ := hg.blob_of_live hlive
  rw [length_stored] at hfits
  have : size' = size := Option.some.inj (hlive'.symm.trans hlive)
  omega

/-- A cache that has just been taken over holds nothing. -/
theorem adopt {s : Space} {alignment : Nat} (hadopt : adopt s h alignment = .ok h' c) :
    Holds .empty (c, h') := by
  obtain ⟨rfl, -, -, rfl⟩ := adopt_ok hadopt
  refine ⟨.of_none (fun item => ?_) fun item => ?_, ?_⟩
  · cases item <;> rfl
  · cases item <;> rfl
  · intro offset r payload hget
    cases hget

/-- The disk under a cache may change, but for the files of its space. -/
theorem congr (hg : Holds g (c, h)) (hsame : ∀ f ∈ c.space.files.files,
    h'.disk.content? f.handle = h.disk.content? f.handle) : Holds g (c, h') := by
  refine ⟨⟨fun {item bytes} hitem => ?_, hg.displays.dead⟩, hg.refs⟩
  have hspared : Spared item (c, h) (c, h') := fun size hlive =>
    ⟨hlive, .of_image_eq (c.space.image_congr hsame) _⟩
  exact hspared.shows (hg.displays.shows hitem)

/-! ### One item -/

theorem kept (hg : Holds g a) (ha : InOrder base a) (hk : Kept a b) : Holds g b :=
  ⟨hg.displays.kept ha hk, hg.refs.congr rfl fun _ => hk.sizes _⟩

theorem insertMessage (hg : Holds g a) {offset : Nat} {message : List UInt8}
    (hdisplays : Displays (Function.update g.bytes? (.message offset) (some message)) b)
    (hsizes : ∀ other, other ≠ .message offset → b.1.size? other = a.1.size? other) :
    Holds { g with messages := g.messages.insert offset message } b := by
  refine ⟨?_, hg.refs.congr rfl fun _ => hsizes _ (by simp)⟩
  rw [Contents.bytes?_insertMessage]
  exact hdisplays

theorem eraseMessage (hg : Holds g a) {offset : Nat}
    (hd : Dropped a b (.message offset) size) :
    Holds { g with messages := g.messages.erase offset } b := by
  refine ⟨?_, hg.refs.congr rfl fun _ => ?_⟩
  · rw [Contents.bytes?_eraseMessage]
    exact hg.displays.dropped hd
  · rw [hd.sizes, if_neg (by simp)]

theorem insertBlob (hg : Holds g a) {r : BlobRef} {payload : List UInt8}
    (hlength : r.length = payload.length) (hself : b.1.size? (.blob r.offset) = some r.capacity)
    (hdisplays : Displays (Function.update g.bytes? (.blob r.offset) (some (stored payload))) b)
    (hsizes : ∀ other, other ≠ .blob r.offset → b.1.size? other = a.1.size? other) :
    Holds { g with blobs := g.blobs.insert r.offset (r, payload) } b := by
  refine ⟨?_, hg.refs.insert hlength hself hsizes⟩
  rw [Contents.bytes?_insertBlob]
  exact hdisplays

theorem eraseBlob (hg : Holds g a) {offset : Nat} (hd : Dropped a b (.blob offset) size) :
    Holds { g with blobs := g.blobs.erase offset } b := by
  refine ⟨?_, hg.refs.erase fun other hne => ?_⟩
  · rw [Contents.bytes?_eraseBlob]
    exact hg.displays.dropped hd
  · rw [hd.sizes, if_neg hne]

theorem placeBlob (hg : Holds g a) (ha : InOrder base a) {r : BlobRef} {payload : List UInt8}
    (hlength : r.length = payload.length)
    (hp : Placed a b (.blob r.offset) r.capacity (stored payload)) :
    Holds { g with blobs := g.blobs.insert r.offset (r, payload) } b :=
  hg.insertBlob hlength hp.size?_self (hg.displays.placed ha hp) fun other hne => by
    rw [hp.sizes, if_neg hne]

/-- Before an append that goes by the reference that was answered last, the slot shows the payload
where the reference says. -/
theorem payload_of_isCurrent (hg : Holds g a) {r : BlobRef} {data : List UInt8}
    (hcurrent : g.isCurrent (.appendBlob r data) = true)
    (hlive : a.1.size? (.blob r.offset) = some r.capacity) :
    ∃ payload, g.blobs.get? r.offset = some (r, payload) ∧ r.length = payload.length ∧
      headerLength + r.length ≤ r.capacity ∧
      shown (held a) (r.offset + headerLength) r.length = payload := by
  obtain ⟨latest, payload, hget, hcapacity, hlength, hshows⟩ := hg.blob_of_live hlive
  obtain rfl := Contents.latest_of_isCurrent hcurrent hget hcapacity
  have hpayload : shown (held a) (latest.offset + headerLength) payload.length = payload :=
    hshows.parts.2
  obtain ⟨size, hsize, hfits, -⟩ := hshows
  rw [length_stored] at hfits
  have : size = latest.capacity := Option.some.inj (hsize.symm.trans hlive)
  refine ⟨payload, hget, hlength, by omega, ?_⟩
  rw [hlength]
  exact hpayload

end Holds

/-! ## Steps -/

variable {g : Contents}

/-- What is told from a request and its answer is what the cache holds then. -/
theorem Steps.holds {request : Request} {reply : Option Reply}
    (hsteps : Steps base a request reply b) (ha : InOrder base a) (hg : Holds g a)
    (hcurrent : g.isCurrent request = true) : Holds (g.after request reply) b := by
  cases hsteps with
  | refused hkept =>
    rw [Contents.after_none]
    exact hg.kept ha hkept
  | message hplaced =>
    apply hg.insertMessage (hg.displays.placed ha hplaced)
    intro other hne
    rw [hplaced.sizes, if_neg hne]
  | stored hwritten =>
    -- the slot shows the message that is expected of it, so this is what is written over
    have hlive := (hwritten [] (Nat.zero_le _) rfl).live
    obtain ⟨message, hget, size, hsize, hfits, hshown⟩ := hg.message_of_live hlive
    rw [Option.some.inj (hsize.symm.trans hlive)] at hfits
    have hover := hwritten message hfits hshown
    simp only [Contents.after, hget]
    exact hg.insertMessage (hg.displays.written ha hover) fun other _ => hover.sizes other
  | messageReleased hdropped => exact hg.eraseMessage hdropped
  | blob hlength hplaced => exact hg.placeBlob ha hlength hplaced
  | @appended data r _ hinside hwritten =>
    obtain ⟨payload, hget, hlength, -, hpayload⟩ := hg.payload_of_isCurrent hcurrent hwritten.live
    rw [hpayload] at hwritten
    simp only [Contents.after, hget, Index.insert_erase_self]
    apply hg.insertBlob (r := { r with length := r.length + data.length })
    · rw [List.length_append, hlength]
    · exact hwritten.size?_self
    · exact hg.displays.written ha hwritten
    · intro other _
      exact hwritten.sizes other
  | @moved data old r r' middle _ hlive hold hshown hlength hplaced hdropped =>
    obtain ⟨payload, hget, -, hinside, hpayload⟩ := hg.payload_of_isCurrent hcurrent hlive
    have heq : old = payload := by
      have hall := hshown r.length (Nat.le_refl _) hinside
      rwa [← hold, List.take_length, hold, hpayload] at hall
    -- the new slot is there before the old one goes
    have hne := ha.ne_of_live hplaced hlive
    simp only [Contents.after, hget, ← heq]
    rw [Index.insert_erase_comm _ _ fun heq => hne (congrArg Item.blob heq.symm)]
    have hmiddle := hg.placeBlob ha (by rw [hlength, List.length_append, hold]) hplaced
    exact hmiddle.eraseBlob hdropped
  | blobReleased hdropped => exact hg.eraseBlob hdropped
  | cleared hemptied =>
    refine ⟨.of_none (fun item => ?_) hemptied.sizes, ?_⟩
    · cases item <;> rfl
    · intro offset r payload hget
      cases hget

/-- Through every conversation, what is told is what the cache holds. -/
theorem Talks.holds {log : List (Request × Option Reply)} (htalks : Talks a log b)
    (ha : InOrder base a) (hg : Holds g a) (hcurrent : g.staysCurrent log = true) :
    Holds (g.afterAll log) b := by
  induction htalks with
  | start => exact hg
  | ask htalks request ih =>
    rw [Contents.staysCurrent_append, Bool.and_eq_true] at hcurrent
    obtain ⟨hbefore, hlast⟩ := hcurrent
    rw [Contents.afterAll_append]
    apply (steps_serve (htalks.inOrder ha) request).holds (htalks.inOrder ha) (ih hbefore)
    simpa [Contents.staysCurrent] using hlast
  | wait _ _ hsame ih => exact (ih hcurrent).congr hsame

end SpillStorage.StagingCache
