import SpillStorage.RecordLog
import SpillStorage.StagingCache
import SpillStorage.Proofs.Space.Change

/-!
What record logs and staging caches do to the space inside them.

What is proved:
  1. `leads_storeRecord`: storing a record leads from the space and the host before to those after
     by a run of changes, on success and on failure.
  2. `leads_serve`: so does whatever a staging cache is asked to do.

`Leads` carries the soundness of the start along, so that runs compose without it being named.
-/

namespace SpillStorage

open Relation Space

/-- From a sound space a run of changes leads to the other. -/
def Leads (a b : Space × Host) : Prop := a.1.Sound → ReflTransGen Change a b

namespace Leads

theorem refl (a : Space × Host) : Leads a a := fun _ => .refl

theorem trans {a b c : Space × Host} (hab : Leads a b) (hbc : Leads b c) : Leads a c :=
  fun ha => (hab ha).trans (hbc (changes_sound (hab ha) ha))

theorem sound {a b : Space × Host} (hab : Leads a b) (ha : a.1.Sound) : b.1.Sound :=
  changes_sound (hab ha) ha

/-- An operation and what comes after its success, seen through a view of the states. -/
theorem andThen {σ α β : Type} (view : σ → Space × Host) {a : Space × Host} {o : Outcome σ α}
    {next : σ → α → Outcome σ β} (ho : Leads a (view o.state))
    (hnext : ∀ v, Leads (view o.state) (view (next o.state v).state)) :
    Leads a (view (o.andThen next).state) := by
  unfold Outcome.andThen
  split
  · next v _ => exact ho.trans (hnext v)
  · exact ho

end Leads

/-! ## The space alone -/

theorem leads_extend (s : Space) (h : Host) (size : Nat) :
    Leads (s, h) (s.extend h size).state :=
  fun _ => changes_of_quiet (extend_quiet h size)

theorem leads_allocate (s : Space) (h : Host) (size : Nat) :
    Leads (s, h) (s.allocate h size).state :=
  fun hs => changes_of_quiet (allocate_quiet hs h size)

theorem leads_write (s : Space) (h : Host) (offset : Nat) (bytes : List UInt8) :
    Leads (s, h) (s.write h offset bytes).state :=
  fun _ => .single (.write s h offset bytes)

theorem leads_release {s s' : Space} (h : Host) {offset size : Nat}
    (hr : s.release offset size = .ok s') : Leads (s, h) (s', h) :=
  fun hs => .single (.quiet (release_quiet hs h hr))

theorem leads_store {s s' : Space} (h : Host) {offset size : Nat} {bytes : List UInt8}
    (hstore : s.storeInMemory? offset size bytes = some s') : Leads (s, h) (s', h) :=
  fun _ => .single (.store h hstore)

/-! ## Record logs -/

theorem leads_makeRoom (l : RecordLog) (h : Host) :
    Leads (l.space, h) (l.makeRoom h).state := by
  unfold RecordLog.makeRoom
  split
  · exact leads_extend _ _ _
  · exact .refl _

theorem leads_storeRecord (l : RecordLog) (h : Host) (record : List UInt8) :
    Leads (l.space, h) ((l.store h record).state.1.space, (l.store h record).state.2) := by
  unfold RecordLog.store
  split
  · exact .refl _
  · have hstored : Leads (l.space, h) ((l.makeRoom h).andThen fun state _ =>
        state.1.write state.2 (l.count * l.recordLength) record).state :=
      Leads.andThen id (leads_makeRoom l h) fun _ => leads_write _ _ _ _
    simp only
    split <;> exact hstored

/-! ## Staging caches -/

namespace StagingCache

/-- The space and the host in the state of a cache's operation. -/
def held (state : StagingCache × Host) : Space × Host := (state.1.space, state.2)

theorem leads_allocateFilled (s : Space) (h : Host) (size : Nat)
    {fill : Space → Host → Nat → Outcome (Space × Host) Unit}
    (hfill : ∀ s h offset, Leads (s, h) (fill s h offset).state) :
    Leads (s, h) (allocateFilled s h size fill).state := by
  apply Leads.andThen id (leads_allocate s h size)
  intro offset
  apply (hfill _ _ offset).trans
  simp only
  split
  · exact .refl _
  · split
    · next s' hr => exact leads_release _ hr
    · exact .refl _

theorem leads_fillMessage (message : List UInt8) (s : Space) (h : Host) (offset : Nat) :
    Leads (s, h) (fillMessage message s h offset).state := by
  unfold fillMessage
  split
  · next s' hstore => exact leads_store h hstore
  · exact leads_write _ _ _ _

theorem leads_putMessage (c : StagingCache) (h : Host) (message : List UInt8) :
    Leads (c.space, h) (held (c.putMessage h message).state) := by
  unfold putMessage
  split
  · exact .refl _
  · next size _ =>
    refine Leads.andThen held ?_ fun offset => .refl _
    exact leads_allocateFilled c.space h size (leads_fillMessage message)

theorem leads_storeInSlot {c c' : StagingCache} (h : Host) {offset length : Nat}
    {bytes : List UInt8} (hstore : c.storeInSlot? offset length bytes = some c') :
    Leads (c.space, h) (c'.space, h) := by
  unfold storeInSlot? at hstore
  split at hstore
  · obtain ⟨s, hs, rfl⟩ := Option.map_eq_some_iff.1 hstore
    exact leads_store h hs
  · cases hstore

theorem leads_releaseSlot (c : StagingCache) (h : Host) (offset size : Nat) :
    Leads (c.space, h) (held (c.releaseSlot h offset size).state) := by
  unfold releaseSlot
  split
  · next s hr => exact leads_release h hr
  · exact .refl _

theorem leads_releaseMessage (c : StagingCache) (h : Host) (offset : Nat) :
    Leads (c.space, h) (held (c.releaseMessage h offset).state) := by
  unfold releaseMessage
  split
  · exact .refl _
  · next size _ =>
    exact leads_releaseSlot { c with messages := c.messages.erase offset } h offset size

theorem leads_fillBlob (payload : List UInt8) (s : Space) (h : Host) (offset : Nat) :
    Leads (s, h) (fillBlob payload s h offset).state :=
  Leads.andThen id (leads_write _ _ _ _) fun _ => leads_write _ _ _ _

theorem leads_putBlob (c : StagingCache) (h : Host) (data : List UInt8) :
    Leads (c.space, h) (held (c.putBlob h data).state) := by
  unfold putBlob
  split
  · exact .refl _
  · next capacity _ =>
    refine Leads.andThen held ?_ fun offset => .refl _
    exact leads_allocateFilled c.space h capacity (leads_fillBlob data)

theorem leads_releaseBlob (c : StagingCache) (h : Host) (r : BlobRef) :
    Leads (c.space, h) (held (c.releaseBlob h r).state) := by
  unfold releaseBlob
  split
  · exact leads_releaseSlot { c with blobs := c.blobs.erase r.offset } h r.offset r.capacity
  · exact .refl _

theorem leads_appendInPlace (c : StagingCache) (h : Host) (r : BlobRef) (data : List UInt8) :
    Leads (c.space, h) (held (c.appendInPlace h r data).state) := by
  apply Leads.andThen id (leads_write _ _ _ _)
  intro _
  exact Leads.andThen id (leads_write _ _ _ _) fun _ => .refl _

theorem leads_fillMoved (old : BlobRef) (data : List UInt8) (s : Space) (h : Host) (offset : Nat) :
    Leads (s, h) (fillMoved old data s h offset).state := by
  unfold fillMoved
  split
  · exact .refl _
  · exact leads_fillBlob _ s h offset

theorem leads_appendMoving (c : StagingCache) (h : Host) (r : BlobRef) (data : List UInt8) :
    Leads (c.space, h) (held (c.appendMoving h r data).state) := by
  unfold appendMoving
  simp only
  split
  · exact .refl _
  · next capacity _ =>
    apply Leads.andThen held
    · exact leads_allocateFilled c.space h capacity (leads_fillMoved r data)
    · intro offset
      exact Leads.andThen held (leads_releaseBlob _ _ r) fun _ => .refl _

theorem leads_appendBlob (c : StagingCache) (h : Host) (r : BlobRef) (data : List UInt8) :
    Leads (c.space, h) (held (c.appendBlob h r data).state) := by
  unfold appendBlob
  split
  · split
    · exact leads_appendInPlace c h r data
    · exact leads_appendMoving c h r data
  · exact .refl _

theorem leads_releaseSlots (slots : List (Nat × Nat)) (c : StagingCache) (h : Host) :
    Leads (c.space, h) (held (c.releaseSlots h slots).state) := by
  induction slots generalizing c h with
  | nil => exact .refl _
  | cons slot rest ih =>
    exact Leads.andThen held (leads_releaseSlot c h slot.1 slot.2) fun _ => ih _ _

theorem leads_clear (c : StagingCache) (h : Host) :
    Leads (c.space, h) (held (c.clear h).state) :=
  leads_releaseSlots _ { c with messages := .empty, blobs := .empty } h

/-! ## Requests -/

/-- What a staging cache can be asked that may change it. -/
inductive Request where
  | putMessage (message : List UInt8)
  /-- Stores bytes into the slot in memory of the message at `offset`. -/
  | storeInSlot (offset length : Nat) (bytes : List UInt8)
  | releaseMessage (offset : Nat)
  | putBlob (data : List UInt8)
  | appendBlob (r : BlobRef) (data : List UInt8)
  | releaseBlob (r : BlobRef)
  | clear
  deriving DecidableEq

/-- The cache and its host after a request, met or not. -/
def serve (c : StagingCache) (h : Host) : Request → StagingCache × Host
  | .putMessage message => (c.putMessage h message).state
  | .storeInSlot offset length bytes => ((c.storeInSlot? offset length bytes).getD c, h)
  | .releaseMessage offset => (c.releaseMessage h offset).state
  | .putBlob data => (c.putBlob h data).state
  | .appendBlob r data => (c.appendBlob h r data).state
  | .releaseBlob r => (c.releaseBlob h r).state
  | .clear => (c.clear h).state

theorem leads_serve (c : StagingCache) (h : Host) (r : Request) :
    Leads (c.space, h) (held (c.serve h r)) := by
  cases r with
  | putMessage message => exact leads_putMessage c h message
  | storeInSlot offset length bytes =>
    simp only [serve]
    cases hstore : c.storeInSlot? offset length bytes with
    | none => exact .refl _
    | some c' => exact leads_storeInSlot h hstore
  | releaseMessage offset => exact leads_releaseMessage c h offset
  | putBlob data => exact leads_putBlob c h data
  | appendBlob r data => exact leads_appendBlob c h r data
  | releaseBlob r => exact leads_releaseBlob c h r
  | clear => exact leads_clear c h

end StagingCache

end SpillStorage
