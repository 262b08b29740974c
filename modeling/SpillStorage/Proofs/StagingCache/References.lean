import SpillStorage.Proofs.StagingCache.Reading

/-!
What a staging cache does with references, whatever they say.

What is proved:
  1. `Talks.framed`: through every conversation, with whatever references, the slot of every live
     blob shows the length of a payload that fits into it, and the payload. So a reference reads a
     payload or is refused (`Framed.blob_cases`): a header is never found to be wrong.
  2. `Steps.spared_of_ref`: an append and a release leave all slots alone but the one that the
     reference names by its offset and its capacity.
  3. `Talks.holdsBlob_eq`: which references are good is told from requests and answers alone. A
     reference to a slot that was returned is refused until the slot is handed out again
     (`handedOut_of_goodAfterAll`), and from then on it is good.

In (3) the slot can be handed out again for another blob: an offset and a capacity say which slot is
meant, and nothing says whose it was.
-/

namespace SpillStorage.StagingCache

open Space

variable {base : Finset Nat} {a b : StagingCache × Host} {c c' : StagingCache} {h h' : Host}
  {item other : Item} {size : Nat} {bytes : List UInt8} {r : BlobRef}

/-! ## Headers -/

/-- The slot of every live blob shows the length of a payload that fits, and the payload. -/
def Framed (a : StagingCache × Host) : Prop :=
  ∀ offset size, a.1.size? (.blob offset) = some size →
    ∃ payload, Shows a (.blob offset) (stored payload)

namespace Framed

/-- Blobs that are not new are left alone. -/
theorem step (hf : Framed a) (heach : ∀ offset size, b.1.size? (.blob offset) = some size →
    (∃ payload, Shows b (.blob offset) (stored payload)) ∨
      a.1.size? (.blob offset) = some size ∧ Spared (.blob offset) a b) : Framed b := by
  intro offset size hlive
  rcases heach offset size hlive with hshows | ⟨hlive', hspared⟩
  · exact hshows
  · obtain ⟨payload, hshows⟩ := hf offset size hlive'
    exact ⟨payload, hspared.shows hshows⟩

theorem kept (hf : Framed a) (ha : InOrder base a) (hk : Kept a b) : Framed b := by
  apply hf.step
  intro offset size hlive
  exact .inr ⟨(hk.sizes _).symm.trans hlive, hk.spared ha _⟩

/-- One item shows something new, which is the length and the payload if the item is a blob. -/
theorem update (hf : Framed a) (hshows : Shows b item bytes)
    (hbytes : ∀ offset, item = .blob offset → ∃ payload, bytes = stored payload)
    (hspared : ∀ other, other ≠ item → Spared other a b)
    (hsizes : ∀ other, other ≠ item → b.1.size? other = a.1.size? other) : Framed b := by
  apply hf.step
  intro offset size hlive
  by_cases heq : item = .blob offset
  · obtain ⟨payload, rfl⟩ := hbytes offset heq
    rw [heq] at hshows
    exact .inl ⟨payload, hshows⟩
  · exact .inr ⟨(hsizes _ (Ne.symm heq)).symm.trans hlive, hspared _ (Ne.symm heq)⟩

theorem placed (hf : Framed a) (ha : InOrder base a) (hp : Placed a b item size bytes)
    (hbytes : ∀ offset, item = .blob offset → ∃ payload, bytes = stored payload) : Framed b := by
  apply hf.update hp.shows_self hbytes fun other _ => hp.spared ha other
  intro other hne
  rw [hp.sizes, if_neg hne]

theorem written (hf : Framed a) (ha : InOrder base a) (hw : Written a b item size bytes)
    (hbytes : ∀ offset, item = .blob offset → ∃ payload, bytes = stored payload) : Framed b :=
  hf.update hw.shows_self hbytes (fun _ hne => hw.spared ha hne) fun other _ => hw.sizes other

theorem dropped (hf : Framed a) (hd : Dropped a b item size) : Framed b := by
  apply hf.step
  intro offset size hlive
  rw [hd.sizes] at hlive
  by_cases heq : Item.blob offset = item
  · rw [if_pos heq] at hlive
    cases hlive
  · rw [if_neg heq] at hlive
    exact .inr ⟨hlive, hd.spared heq⟩

theorem of_none (hsizes : ∀ item, b.1.size? item = none) : Framed b := by
  intro offset size hlive
  rw [hsizes] at hlive
  cases hlive

/-- There are no blobs in a cache that has just been taken over. -/
theorem adopt {s : Space} {alignment : Nat} (hadopt : adopt s h alignment = .ok h' c) :
    Framed (c, h') := by
  obtain ⟨rfl, -, -, rfl⟩ := adopt_ok hadopt
  apply of_none
  intro item
  cases item <;> rfl

end Framed

/-- An append trusts the length in the reference, but writes the header that fits what it leaves:
in place as many bytes as the capacity has room for, in a new slot as many as could be read. -/
theorem Steps.framed {request : Request} {reply : Option Reply}
    (hsteps : Steps base a request reply b) (ha : InOrder base a) (hf : Framed a) : Framed b := by
  cases hsteps with
  | refused hkept => exact hf.kept ha hkept
  | message hplaced =>
    apply hf.placed ha hplaced
    intro offset heq
    cases heq
  | stored hwritten =>
    apply hf.written ha (hwritten [] (Nat.zero_le _) rfl)
    intro offset heq
    cases heq
  | messageReleased hdropped => exact hf.dropped hdropped
  | blob hlength hplaced => exact hf.placed ha hplaced fun _ _ => ⟨_, rfl⟩
  | appended hfits hwritten => exact hf.written ha hwritten fun _ _ => ⟨_, rfl⟩
  | moved hlive hpayload hold hlength hplaced hdropped =>
    exact (hf.placed ha hplaced fun _ _ => ⟨_, rfl⟩).dropped hdropped
  | blobReleased hdropped => exact hf.dropped hdropped
  | cleared hemptied => exact .of_none hemptied.sizes

/-- What others do to the host is not seen in the slots. -/
theorem spared_wait (hsame : ∀ f ∈ c.space.files.files,
    h'.disk.content? f.handle = h.disk.content? f.handle) (item : Item) :
    Spared item (c, h) (c, h') :=
  fun _ hlive => ⟨hlive, .of_image_eq (c.space.image_congr hsame) _⟩

theorem Talks.framed {log : List (Request × Option Reply)} (htalks : Talks a log b)
    (ha : InOrder base a) (hf : Framed a) : Framed b := by
  induction htalks with
  | start => exact hf
  | ask htalks request ih =>
    exact (steps_serve (htalks.inOrder ha) request).framed (htalks.inOrder ha) ih
  | wait _ _ hsame ih =>
    exact ih.step fun offset size hlive => .inr ⟨hlive, spared_wait hsame _⟩

/-! ## Reading through references -/

/-- A reference that names no live slot is refused, and nothing changes. -/
theorem stale_refused (hstale : c.holdsBlob r = false) :
    c.blob h r = .error (staleRef r) ∧ c.releaseBlob h r = .fail (c, h) (staleRef r) ∧
      ∀ data, c.appendBlob h r data = .fail (c, h) (staleRef r) := by
  have hstale' : ¬ c.holdsBlob r = true := by simpa using hstale
  refine ⟨?_, ?_, ?_⟩
  · rw [blob, if_neg hstale']
  · rw [releaseBlob, if_neg hstale']
  · intro data
    rw [appendBlob, if_neg hstale']

/-- A reference that names a live slot reads a payload that fits into it. -/
theorem Framed.blob_ok (hf : Framed (c, h)) (ha : InOrder base (c, h))
    (hlive : c.holdsBlob r = true) :
    ∃ payload, c.blob h r = .ok payload ∧ headerLength + payload.length ≤ r.capacity := by
  obtain ⟨payload, hshows⟩ := hf r.offset r.capacity (holdsBlob_iff.1 hlive)
  have hread := hshows.blob_eq ha (holdsBlob_iff.1 hlive)
  exact ⟨payload, hread, ((blob_eq_ok_iff ha).1 hread).2.1⟩

/-- Whatever the reference, it reads a payload or it is refused. -/
theorem Framed.blob_cases (hf : Framed (c, h)) (ha : InOrder base (c, h)) (r : BlobRef) :
    (c.holdsBlob r = true ∧ ∃ payload, c.blob h r = .ok payload) ∨
      c.holdsBlob r = false ∧ c.blob h r = .error (staleRef r) := by
  cases hholds : c.holdsBlob r with
  | true =>
    obtain ⟨payload, hread, -⟩ := hf.blob_ok ha hholds
    exact .inl ⟨rfl, payload, hread⟩
  | false => exact .inr ⟨rfl, (stale_refused hholds).1⟩

/-- The header of a live blob is read, and what it says fits into the slot. -/
theorem Framed.header (hf : Framed (c, h)) (ha : InOrder base (c, h)) {offset : Nat}
    (hlive : c.size? (.blob offset) = some size) :
    ∃ header, (c.space.read h offset headerLength).complete = .ok header ∧
      headerLength + LittleEndian.decode header ≤ size := by
  -- through the reference that the slot gives itself
  have hnamed : c.holdsBlob ⟨offset, size, 0⟩ = true := holdsBlob_iff.2 hlive
  obtain ⟨payload, hread, hfits⟩ := hf.blob_ok ha hnamed
  obtain ⟨-, -, hlength, -⟩ := (blob_eq_ok_iff ha).1 hread
  have hstands : Stands (c.space, h) := ha.stands
  have hslot : offset + size ≤ c.space.logicalSize := ha.slot_le hlive
  simp only at hfits hlength
  refine ⟨_, read_complete hstands (by omega), ?_⟩
  rw [hlength]
  exact hfits

/-! ## Slots that a reference does not name -/

/-- The reference that a request goes by. -/
def Request.ref? : Request → Option BlobRef
  | .appendBlob r _ => some r
  | .releaseBlob r => some r
  | _ => none

/-- A request that goes by a reference to no live slot is refused. -/
theorem reply_stale {request : Request} (href : request.ref? = some r)
    (hstale : c.holdsBlob r = false) : c.reply h request = none := by
  obtain ⟨-, hrelease, happend⟩ := stale_refused (h := h) hstale
  cases request with
  | appendBlob r' data =>
    cases href
    rw [reply, happend]
    rfl
  | releaseBlob r' =>
    cases href
    rw [reply, hrelease]
    rfl
  | _ => cases href

theorem Request.names_of_ref {request : Request} (href : request.ref? = some r)
    (hnames : request.Names item) : item = .blob r.offset := by
  cases request with
  | appendBlob r' data =>
    cases href
    exact hnames
  | releaseBlob r' =>
    cases href
    exact hnames
  | _ => cases href

/-- A request that goes by a reference leaves every slot alone that the reference does not name. If
it names one of another capacity, the request is refused. -/
theorem Steps.spared_of_ref {request : Request}
    (hsteps : Steps base (c, h) request (c.reply h request) b) (ha : InOrder base (c, h))
    (href : request.ref? = some r) (hlive : c.size? item = some size)
    (hother : ¬ (item = .blob r.offset ∧ size = r.capacity)) : Spared item (c, h) b := by
  apply hsteps.spared ha
  by_cases hnames : request.Names item
  · left
    have hitem := Request.names_of_ref href hnames
    apply reply_stale href
    rw [Bool.eq_false_iff]
    intro hholds
    rw [hitem, holdsBlob_iff.1 hholds] at hlive
    exact hother ⟨hitem, (Option.some.inj hlive).symm⟩
  · exact .inr hnames

/-- Of a slot that is left alone all bytes are read as before. -/
theorem Spared.read_eq (hspared : Spared item (c, h) (c', h')) (ha : InOrder base (c, h))
    (hb : InOrder base (c', h')) (hlive : c.size? item = some size) :
    c'.size? item = some size ∧ ∃ bytes, bytes.length = size ∧
      (c.space.read h item.offset size).complete = .ok bytes ∧
      (c'.space.read h' item.offset size).complete = .ok bytes := by
  obtain ⟨hlive', hkeeps⟩ := hspared size hlive
  have hstands : Stands (c.space, h) := ha.stands
  have hstands' : Stands (c'.space, h') := hb.stands
  have hslot : item.offset + size ≤ c.space.logicalSize := ha.slot_le hlive
  have hslot' : item.offset + size ≤ c'.space.logicalSize := hb.slot_le hlive'
  refine ⟨hlive', _, length_shown hstands hslot, read_complete hstands hslot, ?_⟩
  rw [read_complete hstands' hslot']
  exact congrArg _ (hkeeps.shown (Finset.Subset.refl _))

/-! ## Which references are good -/

/-- Whether a reference is good after a request and its answer, told from whether it was before. -/
def goodAfter (r : BlobRef) (good : Bool) : Request → Option Reply → Bool
  | .putBlob _, some (.ref r') =>
    if r'.offset = r.offset then r'.capacity == r.capacity else good
  | .appendBlob old _, some (.ref r') =>
    if r'.offset = r.offset then r'.capacity == r.capacity else good && old.offset != r.offset
  | .releaseBlob old, some .done => good && old.offset != r.offset
  | .clear, some .done => false
  | _, _ => good

/-- Whether it is good after a conversation. -/
def goodAfterAll (r : BlobRef) (good : Bool) (log : List (Request × Option Reply)) : Bool :=
  log.foldl (fun good entry => goodAfter r good entry.1 entry.2) good

theorem goodAfter_none (r : BlobRef) (good : Bool) (request : Request) :
    goodAfter r good request none = good := by
  cases request <;> rfl

theorem goodAfterAll_append {good : Bool} {log log' : List (Request × Option Reply)} :
    goodAfterAll r good (log ++ log') = goodAfterAll r (goodAfterAll r good log) log' :=
  List.foldl_append

theorem holdsBlob_eq (c : StagingCache) (r : BlobRef) :
    c.holdsBlob r = (c.size? (.blob r.offset) == some r.capacity) := rfl

/-- As long as the sizes of blobs stay, so does what is good. -/
theorem holdsBlob_congr (hsize : c'.size? (.blob r.offset) = c.size? (.blob r.offset)) :
    c'.holdsBlob r = c.holdsBlob r := by
  rw [holdsBlob_eq, holdsBlob_eq, hsize]

theorem Placed.holdsBlob_eq {r' : BlobRef}
    (hp : Placed a b (.blob r'.offset) r'.capacity bytes) (r : BlobRef) :
    b.1.holdsBlob r =
      if r'.offset = r.offset then r'.capacity == r.capacity else a.1.holdsBlob r := by
  rw [StagingCache.holdsBlob_eq, StagingCache.holdsBlob_eq, hp.sizes]
  by_cases hoffset : r'.offset = r.offset
  · rw [if_pos (congrArg Item.blob hoffset.symm), if_pos hoffset]
    rfl
  · rw [if_neg fun heq => hoffset (Item.blob.inj heq).symm, if_neg hoffset]

theorem Dropped.holdsBlob_eq {old : BlobRef} (hd : Dropped a b (.blob old.offset) size)
    (r : BlobRef) : b.1.holdsBlob r = (a.1.holdsBlob r && old.offset != r.offset) := by
  rw [StagingCache.holdsBlob_eq, StagingCache.holdsBlob_eq, hd.sizes]
  by_cases hoffset : old.offset = r.offset
  · rw [if_pos (congrArg Item.blob hoffset.symm), hoffset, bne_self_eq_false, Bool.and_false]
    rfl
  · rw [if_neg fun heq => hoffset (Item.blob.inj heq).symm, bne_iff_ne.2 hoffset, Bool.and_true]

/-- A request and its answer tell which references are good afterwards. -/
theorem Steps.holdsBlob_eq {request : Request} {reply : Option Reply}
    (hsteps : Steps base a request reply b) (ha : InOrder base a) (r : BlobRef) :
    b.1.holdsBlob r = goodAfter r (a.1.holdsBlob r) request reply := by
  cases hsteps with
  | refused hkept =>
    rw [goodAfter_none]
    exact holdsBlob_congr (hkept.sizes _)
  | message hplaced =>
    apply holdsBlob_congr
    rw [hplaced.sizes, if_neg (by simp)]
  | stored hwritten => exact holdsBlob_congr ((hwritten [] (Nat.zero_le _) rfl).sizes _)
  | messageReleased hdropped =>
    apply holdsBlob_congr
    rw [hdropped.sizes, if_neg (by simp)]
  | blob hlength hplaced => exact hplaced.holdsBlob_eq r
  | @appended data old _ hfits hwritten =>
    rw [holdsBlob_congr (hwritten.sizes _), goodAfter]
    by_cases hoffset : old.offset = r.offset
    · rw [if_pos hoffset, StagingCache.holdsBlob_eq, ← hoffset, hwritten.live]
      rfl
    · rw [if_neg hoffset, bne_iff_ne.2 hoffset, Bool.and_true]
  | @moved data payload old r' middle _ hlive hpayload hold hlength hplaced hdropped =>
    rw [hdropped.holdsBlob_eq, hplaced.holdsBlob_eq, goodAfter]
    by_cases hoffset : r'.offset = r.offset
    · -- the new slot is not the one that is returned
      have hne : old.offset ≠ r.offset := fun heq =>
        ha.ne_of_live hplaced hlive (congrArg Item.blob (heq.trans hoffset.symm))
      rw [if_pos hoffset, if_pos hoffset, bne_iff_ne.2 hne, Bool.and_true]
    · rw [if_neg hoffset, if_neg hoffset]
  | blobReleased hdropped => exact hdropped.holdsBlob_eq r
  | cleared hemptied =>
    rw [StagingCache.holdsBlob_eq, hemptied.sizes]
    rfl

theorem Talks.holdsBlob_eq {log : List (Request × Option Reply)} (htalks : Talks a log b)
    (ha : InOrder base a) (r : BlobRef) :
    b.1.holdsBlob r = goodAfterAll r (a.1.holdsBlob r) log := by
  induction htalks with
  | start => rfl
  | ask htalks request ih =>
    rw [goodAfterAll_append, ← ih]
    exact (steps_serve (htalks.inOrder ha) request).holdsBlob_eq (htalks.inOrder ha) r
  | wait _ _ _ ih => exact ih

/-- What makes a reference good is that its slot is handed out. -/
theorem handedOut_of_goodAfter {request : Request} {reply : Option Reply}
    (hgood : goodAfter r false request reply = true) :
    ∃ r', reply = some (.ref r') ∧ r'.offset = r.offset ∧ r'.capacity = r.capacity := by
  have same : ∀ r' : BlobRef,
      (if r'.offset = r.offset then r'.capacity == r.capacity else false) = true →
        r'.offset = r.offset ∧ r'.capacity = r.capacity := by
    intro r' hsame
    by_cases hoffset : r'.offset = r.offset
    · rw [if_pos hoffset] at hsame
      exact ⟨hoffset, beq_iff_eq.1 hsame⟩
    · rw [if_neg hoffset] at hsame
      cases hsame
  unfold goodAfter at hgood
  split at hgood
  · exact ⟨_, rfl, same _ hgood⟩
  · exact ⟨_, rfl, same _ hgood⟩
  all_goals cases hgood

theorem handedOut_of_goodAfterAll {log : List (Request × Option Reply)}
    (hgood : goodAfterAll r false log = true) :
    ∃ request r', (request, some (.ref r')) ∈ log ∧ r'.offset = r.offset ∧
      r'.capacity = r.capacity := by
  induction log with
  | nil => cases hgood
  | cons entry rest ih =>
    obtain ⟨request, answer⟩ := entry
    cases hfirst : goodAfter r false request answer with
    | false =>
      rw [goodAfterAll, List.foldl_cons, hfirst] at hgood
      obtain ⟨request', r', hmem, hsame⟩ := ih hgood
      exact ⟨request', r', List.mem_cons_of_mem _ hmem, hsame⟩
    | true =>
      obtain ⟨r', rfl, hsame⟩ := handedOut_of_goodAfter hfirst
      exact ⟨request, r', List.mem_cons_self, hsame⟩

end SpillStorage.StagingCache
