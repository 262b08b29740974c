import SpillStorage.Proofs.Space.Bytes

/-!
The slots of a staging cache, and the five things that can happen to them.

What is proved:
  1. `InOrder.adopt`: in a new cache there are no slots, and the bytes in use are those that were.
  2. `InOrder.kept`, `placed`, `written`, `dropped` and `emptied`: each of the five keeps the cache
     in order, so slots stay apart, and together with the bytes in use from the beginning they are
     all that is in use.

The five speak of a cache by the sizes of its slots, so nothing here depends on how it lists them.
-/

namespace SpillStorage.StagingCache

open Space

/-- What a cache keeps, by the offset of its slot. -/
inductive Item where
  | message (offset : Nat)
  | blob (offset : Nat)
  deriving DecidableEq

namespace Item

def offset : Item → Nat
  | message offset => offset
  | blob offset => offset

/-- The bytes of a slot of `size` bytes. -/
def bytes (item : Item) (size : Nat) : Finset Nat := Finset.Ico item.offset (item.offset + size)

theorem offset_mem_bytes (item : Item) {size : Nat} (h : 0 < size) :
    item.offset ∈ item.bytes size := Finset.mem_Ico.2 ⟨Nat.le_refl _, by omega⟩

end Item

/-- The size of the slot of an item, if it is live. -/
def size? (c : StagingCache) : Item → Option Nat
  | .message offset => c.messages.get? offset
  | .blob offset => c.blobs.get? offset

/-- Slots are not empty, as long as the alignment wants, and apart from each other and from `base`;
`base` and they make up what is in use. -/
structure Slots (base : Finset Nat) (c : StagingCache) : Prop where
  alignment_pos : 0 < c.alignment
  nonempty : ∀ {item size}, c.size? item = some size → 0 < size
  multiple : ∀ {item size}, c.size? item = some size → c.alignment ∣ size
  outside : ∀ {item size}, c.size? item = some size → Disjoint base (item.bytes size)
  apart : ∀ {i j m n}, c.size? i = some m → c.size? j = some n → i ≠ j →
    Disjoint (i.bytes m) (j.bytes n)
  used : ∀ x, x ∈ c.space.used ↔ x ∈ base ∨ ∃ item size, c.size? item = some size ∧
    x ∈ item.bytes size

/-- The space stands, and the slots are in order. -/
structure InOrder (base : Finset Nat) (a : StagingCache × Host) : Prop where
  stands : Stands (held a)
  slots : Slots base a.1

/-! ## What can happen -/

/-- The slots and the bytes in use are what they were. The space may have got longer. -/
structure Kept (a b : StagingCache × Host) : Prop where
  alignment : b.1.alignment = a.1.alignment
  sizes : ∀ item, b.1.size? item = a.1.size? item
  idles : ∃ size, a.1.alignment ∣ size ∧ Idles (held a) (held b) size

/-- An item is put into a new slot, which shows `bytes` from its start on. -/
structure Placed (a b : StagingCache × Host) (item : Item) (size : Nat) (bytes : List UInt8) :
    Prop where
  alignment : b.1.alignment = a.1.alignment
  sizes : ∀ other, b.1.size? other = if other = item then some size else a.1.size? other
  positive : 0 < size
  multiple : a.1.alignment ∣ size
  hands : Hands (held a) (held b) item.offset size
  fits : bytes.length ≤ size
  shows : shown (held b) item.offset bytes.length = bytes

/-- The slot of an item shows `bytes` from its start on. -/
structure Written (a b : StagingCache × Host) (item : Item) (size : Nat) (bytes : List UInt8) :
    Prop where
  alignment : b.1.alignment = a.1.alignment
  sizes : ∀ other, b.1.size? other = a.1.size? other
  live : a.1.size? item = some size
  fills : Fills (held a) (held b) item.offset size bytes

/-- The slot of an item is returned. -/
structure Dropped (a b : StagingCache × Host) (item : Item) (size : Nat) : Prop where
  stands : Stands (held b)
  alignment : b.1.alignment = a.1.alignment
  sizes : ∀ other, b.1.size? other = if other = item then none else a.1.size? other
  live : a.1.size? item = some size
  length : b.1.space.logicalSize = a.1.space.logicalSize
  used : b.1.space.used = a.1.space.used \ item.bytes size
  image : b.1.space.image b.2.disk = a.1.space.image a.2.disk

/-- All slots are returned. -/
structure Emptied (base : Finset Nat) (a b : StagingCache × Host) : Prop where
  stands : Stands (held b)
  alignment : b.1.alignment = a.1.alignment
  sizes : ∀ item, b.1.size? item = none
  length : b.1.space.logicalSize = a.1.space.logicalSize
  used : b.1.space.used = base
  image : b.1.space.image b.2.disk = a.1.space.image a.2.disk

/-! ## Slots -/

namespace Slots

variable {base : Finset Nat} {c c' : StagingCache} {item : Item} {size : Nat}

/-- The bytes of a slot are in use. -/
theorem subset_used (h : Slots base c) (hlive : c.size? item = some size) :
    item.bytes size ⊆ c.space.used := by
  intro x hx
  exact (h.used x).2 (.inr ⟨item, size, hlive, hx⟩)

theorem congr (h : Slots base c) (halignment : c'.alignment = c.alignment)
    (hsizes : ∀ item, c'.size? item = c.size? item) (hused : c'.space.used = c.space.used) :
    Slots base c' := by
  refine ⟨?_, ?_, ?_, ?_, ?_, ?_⟩
  · rw [halignment]
    exact h.alignment_pos
  · intro item size hlive
    exact h.nonempty ((hsizes item).symm.trans hlive)
  · intro item size hlive
    rw [halignment]
    exact h.multiple ((hsizes item).symm.trans hlive)
  · intro item size hlive
    exact h.outside ((hsizes item).symm.trans hlive)
  · intro i j m n hi hj
    exact h.apart ((hsizes i).symm.trans hi) ((hsizes j).symm.trans hj)
  · intro x
    simp only [hused, hsizes]
    exact h.used x

/-- Bytes that were not in use are no part of a slot, so no slot was there. -/
theorem size?_eq_none (h : Slots base c) (hsize : 0 < size)
    (hunused : Disjoint c.space.used (item.bytes size)) : c.size? item = none := by
  cases hold : c.size? item with
  | none => rfl
  | some old =>
    have hin := h.subset_used hold (item.offset_mem_bytes (h.nonempty hold))
    exact absurd (item.offset_mem_bytes hsize) (Finset.disjoint_left.1 hunused hin)

theorem place (h : Slots base c) (halignment : c'.alignment = c.alignment)
    (hsizes : ∀ other, c'.size? other = if other = item then some size else c.size? other)
    (hsize : 0 < size) (hmultiple : c.alignment ∣ size)
    (hunused : Disjoint c.space.used (item.bytes size))
    (hused : c'.space.used = c.space.used ∪ item.bytes size) : Slots base c' := by
  have hnone := h.size?_eq_none hsize hunused
  have hself : c'.size? item = some size := by rw [hsizes, if_pos rfl]
  have hother : ∀ {i m}, i ≠ item → (c'.size? i = some m ↔ c.size? i = some m) := by
    intro i m hi
    rw [hsizes, if_neg hi]
  have heq : ∀ {m}, c'.size? item = some m → m = size := by
    intro m hm
    rw [hself] at hm
    exact (Option.some.inj hm).symm
  have hfresh : ∀ {i m}, c.size? i = some m → Disjoint (i.bytes m) (item.bytes size) := fun hi =>
    hunused.mono_left (h.subset_used hi)
  refine ⟨halignment ▸ h.alignment_pos, ?_, ?_, ?_, ?_, ?_⟩
  · intro i m hi
    by_cases hitem : i = item
    · subst hitem
      rw [heq hi]
      exact hsize
    · exact h.nonempty ((hother hitem).1 hi)
  · intro i m hi
    rw [halignment]
    by_cases hitem : i = item
    · subst hitem
      rw [heq hi]
      exact hmultiple
    · exact h.multiple ((hother hitem).1 hi)
  · intro i m hi
    by_cases hitem : i = item
    · subst hitem
      rw [heq hi]
      exact hunused.mono_left fun x hx => (h.used x).2 (.inl hx)
    · exact h.outside ((hother hitem).1 hi)
  · intro i j m n hi hj hij
    by_cases hitem : i = item
    · subst hitem
      rw [heq hi]
      exact (hfresh ((hother hij.symm).1 hj)).symm
    · by_cases hitem' : j = item
      · subst hitem'
        rw [heq hj]
        exact hfresh ((hother hitem).1 hi)
      · exact h.apart ((hother hitem).1 hi) ((hother hitem').1 hj) hij
  · intro x
    rw [hused, Finset.mem_union, h.used]
    constructor
    · rintro ((hx | ⟨i, m, hi, hx⟩) | hx)
      · exact .inl hx
      · refine .inr ⟨i, m, (hother ?_).2 hi, hx⟩
        rintro rfl
        rw [hnone] at hi
        cases hi
      · exact .inr ⟨item, size, hself, hx⟩
    · rintro (hx | ⟨i, m, hi, hx⟩)
      · exact .inl (.inl hx)
      · by_cases hitem : i = item
        · subst hitem
          rw [heq hi] at hx
          exact .inr hx
        · exact .inl (.inr ⟨i, m, (hother hitem).1 hi, hx⟩)

theorem drop (h : Slots base c) (halignment : c'.alignment = c.alignment)
    (hsizes : ∀ other, c'.size? other = if other = item then none else c.size? other)
    (hlive : c.size? item = some size) (hused : c'.space.used = c.space.used \ item.bytes size) :
    Slots base c' := by
  have hlives : ∀ {i m}, c'.size? i = some m → i ≠ item ∧ c.size? i = some m := by
    intro i m hi
    rw [hsizes] at hi
    by_cases hitem : i = item
    · rw [if_pos hitem] at hi
      cases hi
    · rw [if_neg hitem] at hi
      exact ⟨hitem, hi⟩
  refine ⟨halignment ▸ h.alignment_pos, ?_, ?_, ?_, ?_, ?_⟩
  · intro i m hi
    exact h.nonempty (hlives hi).2
  · intro i m hi
    rw [halignment]
    exact h.multiple (hlives hi).2
  · intro i m hi
    exact h.outside (hlives hi).2
  · intro i j m n hi hj
    exact h.apart (hlives hi).2 (hlives hj).2
  · intro x
    rw [hused, Finset.mem_sdiff, h.used]
    constructor
    · rintro ⟨hx | ⟨i, m, hi, hx⟩, hout⟩
      · exact .inl hx
      · refine .inr ⟨i, m, ?_, hx⟩
        rw [hsizes, if_neg]
        · exact hi
        · rintro rfl
          rw [hlive] at hi
          cases hi
          exact hout hx
    · rintro (hx | ⟨i, m, hi, hx⟩)
      · exact ⟨.inl hx, Finset.disjoint_left.1 (h.outside hlive) hx⟩
      · obtain ⟨hne, hi⟩ := hlives hi
        exact ⟨.inr ⟨i, m, hi, hx⟩, Finset.disjoint_left.1 (h.apart hi hlive hne) hx⟩

/-- A cache without slots uses what is in use beside them. -/
theorem of_none (hpos : 0 < c.alignment) (hsizes : ∀ item, c.size? item = none)
    (hused : c.space.used = base) : Slots base c := by
  have hdead : ∀ {i m}, c.size? i ≠ some m := by
    intro i m hi
    rw [hsizes] at hi
    cases hi
  refine ⟨hpos, fun hi => absurd hi hdead, fun hi => absurd hi hdead, fun hi => absurd hi hdead,
    fun hi _ _ => absurd hi hdead, fun x => ?_⟩
  rw [hused]
  exact ⟨.inl, fun hx => hx.elim id fun ⟨_, _, hi, _⟩ => absurd hi hdead⟩

end Slots

/-! ## Caches in order -/

namespace InOrder

variable {base : Finset Nat} {a b : StagingCache × Host} {item : Item} {size : Nat}
  {bytes : List UInt8}

theorem kept (ha : InOrder base a) (h : Kept a b) : InOrder base b := by
  obtain ⟨size, -, hidles⟩ := h.idles
  exact ⟨hidles.stands, ha.slots.congr h.alignment h.sizes hidles.used⟩

theorem placed (ha : InOrder base a) (h : Placed a b item size bytes) : InOrder base b :=
  ⟨h.hands.stands, ha.slots.place h.alignment h.sizes h.positive h.multiple h.hands.obtains.unused
    h.hands.obtains.used⟩

theorem written (ha : InOrder base a) (h : Written a b item size bytes) : InOrder base b :=
  ⟨h.fills.stands, ha.slots.congr h.alignment h.sizes h.fills.used⟩

theorem dropped (ha : InOrder base a) (h : Dropped a b item size) : InOrder base b :=
  ⟨h.stands, ha.slots.drop h.alignment h.sizes h.live h.used⟩

theorem emptied (ha : InOrder base a) (h : Emptied base a b) : InOrder base b :=
  ⟨h.stands, .of_none (h.alignment ▸ ha.slots.alignment_pos) h.sizes h.used⟩

/-- A new slot is that of no live item. -/
theorem ne_of_live (ha : InOrder base a) (h : Placed a b item size bytes) {other : Item} {n : Nat}
    (hlive : a.1.size? other = some n) : other ≠ item := by
  have hnone := ha.slots.size?_eq_none h.positive h.hands.obtains.unused
  intro heq
  rw [heq, hnone] at hlive
  cases hlive

/-- What lies in a slot lies in the space. -/
theorem slot_le (ha : InOrder base a) (hlive : a.1.size? item = some size) :
    item.offset + size ≤ a.1.space.logicalSize :=
  le_of_subset_used (ha.slots.nonempty hlive) (ha.slots.subset_used hlive)

end InOrder

theorem adopt_ok {s : Space} {h h' : Host} {alignment : Nat} {c : StagingCache}
    (hadopt : adopt s h alignment = .ok h' c) : h' = h ∧ isPowerOfTwo alignment = true ∧
      alignment ∣ s.logicalSize ∧ c = ⟨s, alignment, .empty, .empty⟩ := by
  unfold adopt at hadopt
  by_cases hpower : isPowerOfTwo alignment = true
  · rw [hpower] at hadopt
    by_cases hmod : s.logicalSize % alignment = 0
    · simp only [Bool.not_true, Bool.false_eq_true, if_false, hmod, ne_eq, not_true_eq_false]
        at hadopt
      cases hadopt
      exact ⟨rfl, hpower, Nat.dvd_of_mod_eq_zero hmod, rfl⟩
    · simp only [Bool.not_true, Bool.false_eq_true, if_false, hmod, ne_eq, not_false_eq_true,
        if_true] at hadopt
      cases hadopt
  · rw [if_pos (by simpa using hpower)] at hadopt
    cases hadopt

/-- A cache is taken over in order. -/
theorem InOrder.adopt {s : Space} {h h' : Host} {alignment : Nat} {c : StagingCache}
    (hs : Stands (s, h)) (hadopt : adopt s h alignment = .ok h' c) : InOrder s.used (c, h') := by
  obtain ⟨rfl, hpower, -, rfl⟩ := adopt_ok hadopt
  refine ⟨hs, .of_none ?_ (fun item => ?_) rfl⟩
  · apply Nat.pos_of_ne_zero
    rintro rfl
    cases hpower
  · cases item <;> rfl

end SpillStorage.StagingCache
