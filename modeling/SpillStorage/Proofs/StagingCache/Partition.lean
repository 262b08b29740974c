import SpillStorage.Proofs.StagingCache.Alignment

/-!
How the slots of a staging cache and the free segments of its space share the space out.

What is proved:
  1. `OnGrid`: sets of bytes that begin and end at multiples of a number only. A pool's bytes are
     such a set exactly if its segments begin and end there (`Pool.Sound.onGrid_iff`).
  2. `Slots.disjoint_free` and `InOrder.segments_aligned`: slots lie apart from the free segments,
     and if what was in use from the beginning is on the grid, so are the free segments, whatever
     was put and released since.
  3. `InOrder.untouched`: a refused request changes neither what is listed nor a byte in use. So no
     slot is lost on the way, and no item is taken off the lists whose slot cannot be returned.
  4. `releaseMessage_iff`, `releaseBlob_iff` and `appendBlob_iff`: which of the requests that return
     slots are answered. That a slot cannot be returned is never the reason that one is not.
-/

namespace SpillStorage

/-! ## Sets on a grid -/

/-- The set begins and ends at multiples of `n` only. -/
def OnGrid (n : Nat) (bytes : Finset Nat) : Prop :=
  ∀ x, ¬ n ∣ x + 1 → (x ∈ bytes ↔ x + 1 ∈ bytes)

namespace OnGrid

variable {n : Nat} {s t : Finset Nat}

theorem ico {start finish : Nat} (hstart : n ∣ start) (hfinish : n ∣ finish) :
    OnGrid n (Finset.Ico start finish) := by
  intro x hx
  have hne : x + 1 ≠ start := fun heq => hx (heq ▸ hstart)
  have hne' : x + 1 ≠ finish := fun heq => hx (heq ▸ hfinish)
  rw [Finset.mem_Ico, Finset.mem_Ico]
  omega

theorem range {size : Nat} (h : n ∣ size) : OnGrid n (Finset.range size) := by
  rw [Finset.range_eq_Ico]
  exact ico (Nat.dvd_zero n) h

theorem sdiff (hs : OnGrid n s) (ht : OnGrid n t) : OnGrid n (s \ t) := by
  intro x hx
  rw [Finset.mem_sdiff, Finset.mem_sdiff, hs x hx, ht x hx]

theorem biUnion {ι : Type} {index : Finset ι} {f : ι → Finset Nat}
    (h : ∀ i ∈ index, OnGrid n (f i)) : OnGrid n (index.biUnion f) := by
  intro x hx
  rw [Finset.mem_biUnion, Finset.mem_biUnion]
  exact exists_congr fun i => and_congr_right fun hi => h i hi x hx

/-- Where the set begins, it is on the grid. -/
theorem dvd_of_begins (h : OnGrid n s) {x : Nat} (hx : x ∈ s) (hbefore : x ≠ 0 → x - 1 ∉ s) :
    n ∣ x := by
  cases x with
  | zero => exact Nat.dvd_zero n
  | succ x =>
    by_contra hoff
    exact hbefore (Nat.succ_ne_zero x) ((h x hoff).2 hx)

/-- Where the set ends, it is on the grid. -/
theorem dvd_of_ends (h : OnGrid n s) {x : Nat} (hx : x ∈ s) (hnext : x + 1 ∉ s) : n ∣ x + 1 := by
  by_contra hoff
  exact hnext ((h x hoff).1 hx)

end OnGrid

/-- The bytes of a pool are on the grid exactly if its segments begin and end there. -/
theorem Pool.Sound.onGrid_iff {p : Pool} (h : Pool.Sound p) (n : Nat) :
    OnGrid n p.bytes ↔ ∀ t ∈ p.segments, n ∣ t.position ∧ n ∣ t.finish := by
  constructor
  · intro hgrid t ht
    have hsize := Pool.nonempty_of_mem h ht
    have hsub := Pool.segment_bytes_subset ht
    have hfirst : t.position ∈ p.bytes :=
      hsub (Segment.mem_bytes.2 ⟨Nat.le_refl _, by unfold Segment.finish; omega⟩)
    have hlast : t.finish - 1 ∈ p.bytes :=
      hsub (Segment.mem_bytes.2 (by unfold Segment.finish; omega))
    have hend : t.finish - 1 + 1 = t.finish := by unfold Segment.finish; omega
    refine ⟨hgrid.dvd_of_begins hfirst (Pool.before_not_mem_bytes h ht), ?_⟩
    rw [← hend]
    apply hgrid.dvd_of_ends hlast
    rw [hend]
    exact Pool.finish_not_mem_bytes h ht
  · intro hsegments
    apply OnGrid.biUnion
    intro t ht
    obtain ⟨hposition, hfinish⟩ := hsegments t (List.mem_toFinset.1 ht)
    exact .ico hposition hfinish

namespace Space

variable {s : Space} {n : Nat}

/-- What is in use of a space that ends on the grid is on it exactly if what is free is. -/
theorem Sound.onGrid_used_iff (hs : s.Sound) (hlength : n ∣ s.logicalSize) :
    OnGrid n s.used ↔ OnGrid n s.free.bytes := by
  refine ⟨fun hused => ?_, fun hfree => (OnGrid.range hlength).sdiff hfree⟩
  have hback : Finset.range s.logicalSize \ s.used = s.free.bytes :=
    Finset.sdiff_sdiff_eq_self fun x hx => Finset.mem_range.2 (hs.below x hx)
  rw [← hback]
  exact (OnGrid.range hlength).sdiff hused

/-- The bytes in use are those that are not free. -/
theorem Sound.card_used (hs : s.Sound) : s.used.card = s.logicalSize - s.freeSpace := by
  have hle : s.used.card ≤ s.logicalSize := by
    calc s.used.card ≤ (Finset.range s.logicalSize).card :=
          Finset.card_le_card Finset.sdiff_subset
      _ = s.logicalSize := Finset.card_range _
  have := hs.used_card
  omega

end Space

namespace StagingCache

open Space

variable {base : Finset Nat} {c : StagingCache} {h : Host}

/-! ## Slots and free segments -/

namespace Slots

/-- Slots lie apart from the free segments. -/
theorem disjoint_free (hslots : Slots base c) {item : Item} {size : Nat}
    (hlive : c.size? item = some size) {t : Segment} (ht : t ∈ c.space.free.segments) :
    Disjoint t.bytes (item.bytes size) := by
  rw [Finset.disjoint_left]
  intro x hfree hslot
  have hused := hslots.subset_used hlive hslot
  exact (mem_used.1 hused).2 (Pool.segment_bytes_subset ht hfree)

/-- If what was in use beside the slots is on the grid, and slots start there, then all that is in
use is on the grid. -/
theorem onGrid_used (hslots : Slots base c) (hbase : OnGrid c.alignment base)
    (hitems : ∀ {item size}, c.size? item = some size → c.alignment ∣ item.offset) :
    OnGrid c.alignment c.space.used := by
  intro x hx
  rw [hslots.used, hslots.used]
  apply or_congr (hbase x hx)
  apply exists_congr
  intro item
  apply exists_congr
  intro size
  apply and_congr_right
  intro hlive
  have hoffset := hitems hlive
  exact OnGrid.ico hoffset (Nat.dvd_add hoffset (hslots.multiple hlive)) x hx

end Slots

/-- The free segments begin and end on the grid, as they did when the cache took the space over. -/
theorem InOrder.segments_aligned (ha : InOrder base (c, h)) (hal : Aligned c)
    (hbase : OnGrid c.alignment base) :
    ∀ t ∈ c.space.free.segments, c.alignment ∣ t.position ∧ c.alignment ∣ t.finish := by
  have hsound : c.space.Sound := ha.stands.sound
  have hused := ha.slots.onGrid_used hbase hal.items
  exact (hsound.pool.onGrid_iff _).1 ((hsound.onGrid_used_iff hal.length).1 hused)

/-! ## Refusals -/

/-- What is listed, what is in use and what it holds, is what it was. -/
structure Untouched (a b : StagingCache × Host) : Prop where
  messages : b.1.messages = a.1.messages
  blobs : b.1.blobs = a.1.blobs
  used : b.1.space.used = a.1.space.used
  bytes : Keeps a.1.space.used (held a) (held b)

/-- Caches with slots of the same sizes list the same. -/
theorem lists_eq {c' : StagingCache} (hsizes : ∀ item, c'.size? item = c.size? item) :
    c'.messages = c.messages ∧ c'.blobs = c.blobs := by
  constructor
  · apply Index.ext_get?
    intro offset
    exact hsizes (.message offset)
  · apply Index.ext_get?
    intro offset
    exact hsizes (.blob offset)

theorem Kept.untouched {a b : StagingCache × Host} (hkept : Kept a b) : Untouched a b := by
  obtain ⟨size, -, hidles⟩ := hkept.idles
  obtain ⟨hmessages, hblobs⟩ := lists_eq hkept.sizes
  exact ⟨hmessages, hblobs, hidles.used, hidles.kept⟩

/-- A refused request leaves everything untouched. -/
theorem InOrder.untouched (ha : InOrder base (c, h)) {request : Request}
    (hrefused : c.reply h request = none) : Untouched (c, h) (c.serve h request) := by
  have hsteps := steps_serve ha request
  rw [hrefused] at hsteps
  cases hsteps with
  | refused hkept => exact hkept.untouched

/-! ## Returning slots -/

/-- The slot of a message can be returned exactly if it is live. -/
theorem releaseMessage_iff (ha : InOrder base (c, h)) (offset : Nat) :
    c.reply h (.releaseMessage offset) = some .done ↔ (c.messages.get? offset).isSome := by
  rw [reply]
  cases hget : c.messages.get? offset with
  | none =>
    have hr : c.releaseMessage h offset = .fail (c, h) (.invalidRange offset 0) := by
      rw [releaseMessage, hget]
    rw [hr]
    exact iff_of_false (Option.some_ne_none _).symm Bool.false_ne_true
  | some size =>
    have hlive : c.size? (.message offset) = some size := hget
    obtain ⟨s, hr, -⟩ := releaseMessage_ok ha hlive
    rw [hr]
    exact iff_of_true rfl rfl

/-- The slot of a blob can be returned exactly if it is live and the reference knows its size. -/
theorem releaseBlob_iff (ha : InOrder base (c, h)) (r : BlobRef) :
    c.reply h (.releaseBlob r) = some .done ↔ c.holdsBlob r = true := by
  rw [reply]
  by_cases hholds : c.holdsBlob r = true
  · obtain ⟨s, hr, -⟩ := releaseBlob_ok ha (holdsBlob_iff.1 hholds)
    rw [hr]
    exact iff_of_true rfl hholds
  · have hr : c.releaseBlob h r = .fail (c, h) (staleRef r) := by
      rw [releaseBlob, if_neg hholds]
    rw [hr]
    exact iff_of_false (Option.some_ne_none _).symm hholds

/-- There is a new slot for a blob that moves, and it can be filled. -/
def CanMove (c : StagingCache) (h : Host) (r : BlobRef) (data : List UInt8) : Prop :=
  ∃ capacity offset,
    c.slotSize (max (headerLength + (r.length + data.length)) (r.capacity * 2)) = .ok capacity ∧
    (allocateFilled c.space h capacity (fillMoved r data)).answer = .ok offset

theorem appendMoving_iff (ha : InOrder base (c, h)) {r : BlobRef} (data : List UInt8)
    (hlive : c.size? (.blob r.offset) = some r.capacity) :
    (∃ r', (c.appendMoving h r data).answer = .ok r') ↔ c.CanMove h r data := by
  unfold appendMoving CanMove
  cases hslot : c.slotSize (max (headerLength + (r.length + data.length)) (r.capacity * 2)) with
  | error f =>
    refine iff_of_false ?_ ?_
    · rintro ⟨r', hr⟩
      simp only [hslot] at hr
      cases hr
    · rintro ⟨capacity, offset, hr, -⟩
      cases hr
  | ok capacity =>
    -- the answer does not depend on the cache around the space
    have hanswer : (allocateFilled c.space h capacity (fillMoved r data)).answer =
      (c.withSpace (allocateFilled c.space h capacity (fillMoved r data))).answer := rfl
    rcases movedSlot_cases ha data hlive hslot with ⟨b, f, heq, -⟩ |
      ⟨s₁, h₁, offset, payload, heq, -, -, hplaced⟩
    · rw [heq] at hanswer
      refine iff_of_false ?_ ?_
      · rintro ⟨r', hr⟩
        simp only [hslot, heq] at hr
        cases hr
      · rintro ⟨capacity', offset, hcapacity, hr⟩
        cases hcapacity
        rw [hanswer] at hr
        cases hr
    · obtain ⟨s₂, hr, -⟩ := releaseMoved_ok ha hlive hplaced
      rw [heq] at hanswer
      refine iff_of_true ⟨⟨offset, capacity, r.length + data.length⟩, ?_⟩
        ⟨capacity, offset, rfl, hanswer⟩
      simp only [hslot, heq, Outcome.andThen_ok]
      rw [hr]
      rfl

/-- An append is answered exactly if the reference is that of a live slot, and the data fits into it
or there is another one for it. Once there is, the old slot can be returned. -/
theorem appendBlob_iff (ha : InOrder base (c, h)) (r : BlobRef) (data : List UInt8) :
    (c.reply h (.appendBlob r data)).isSome ↔ c.holdsBlob r = true ∧
      (headerLength + (r.length + data.length) ≤ r.capacity ∨ c.CanMove h r data) := by
  have hsome : (c.reply h (.appendBlob r data)).isSome ↔
      ∃ r', (c.appendBlob h r data).answer = .ok r' := by
    rw [reply]
    cases (c.appendBlob h r data).answer with
    | error f =>
      refine iff_of_false Bool.false_ne_true ?_
      rintro ⟨r', hr⟩
      cases hr
    | ok r' => exact iff_of_true rfl ⟨r', rfl⟩
  rw [hsome, appendBlob]
  by_cases hholds : c.holdsBlob r = true
  · have hlive := holdsBlob_iff.1 hholds
    rw [if_pos hholds, and_iff_right hholds]
    by_cases hfits : headerLength + (r.length + data.length) ≤ r.capacity
    · obtain ⟨b, hr, -⟩ := appendInPlace_ok ha hlive hfits
      rw [if_pos hfits, hr]
      exact iff_of_true ⟨_, rfl⟩ (.inl hfits)
    · rw [if_neg hfits, or_iff_right hfits]
      exact appendMoving_iff ha data hlive
  · rw [if_neg hholds]
    refine iff_of_false ?_ fun hboth => hholds hboth.1
    rintro ⟨r', hr⟩
    cases hr

/-- A cache that is cleared lists nothing, and what was in use from the beginning is all that
is. -/
theorem InOrder.clear_empties (ha : InOrder base (c, h)) :
    ∃ b, c.clear h = .ok b () ∧ b.1.messages = .empty ∧ b.1.blobs = .empty ∧
      b.1.space.used = base ∧ b.1.space.freeSpace = b.1.space.logicalSize - base.card := by
  obtain ⟨b, hr, hemptied⟩ := clear_ok ha
  have hsound : b.1.space.Sound := hemptied.stands.sound
  have hnone : ∀ item, b.1.size? item = size? ⟨b.1.space, b.1.alignment, .empty, .empty⟩ item := by
    intro item
    rw [hemptied.sizes item]
    cases item <;> rfl
  obtain ⟨hmessages, hblobs⟩ := lists_eq hnone
  refine ⟨b, hr, hmessages, hblobs, hemptied.used, ?_⟩
  rw [hsound.used_card, hemptied.used]

end StagingCache

end SpillStorage
