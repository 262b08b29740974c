import SpillStorage.Pool
import SpillStorage.Proofs.Index
import SpillStorage.Proofs.Offset

/-!
The representation of a pool: slots, vacant slots, two indexes and a counter that tell one story.

What is proved:
  1. `Sound.insert` and `Sound.remove`: the two elementary changes keep a pool sound, an insertion
     as long as the new segment is apart from those that are there.
  2. `mem_segments_insert` and `mem_segments_remove`: what they do to the free segments.
  3. `Sound.segments_sorted`: the free segments of a sound pool are listed in order, never
     touching.

`Indexed` is all of `Sound` but the counter. It stands apart because the sum of the sizes is known
to follow a change only when the segments are known to be listed in order.
-/

namespace SpillStorage

/-- Two segments share no byte and do not touch. -/
def Segment.Apart (s t : Segment) : Prop := s.finish < t.position ∨ t.finish < s.position

theorem Segment.Apart.symm {s t : Segment} (h : s.Apart t) : t.Apart s := Or.symm h

namespace Pool

/-- Slots and indexes agree, and the segments are non-empty, in range and apart. -/
structure Indexed (p : Pool) : Prop where
  position_iff : ∀ position slot, (position, slot) ∈ p.byPosition.entries ↔
    ∃ s, p.segmentAt slot = some s ∧ s.position = position
  stack_iff : ∀ size slot, slot ∈ p.stack size ↔ ∃ s, p.segmentAt slot = some s ∧ s.size = size
  stack_nodup : ∀ size, (p.stack size).Nodup
  stack_ne_nil : ∀ size, p.bySize.get? size ≠ some []
  vacant_nodup : p.vacant.Nodup
  vacant_iff : ∀ slot, slot ∈ p.vacant ↔ p.slots[slot]? = some none
  nonempty : ∀ slot s, p.segmentAt slot = some s → 0 < s.size
  bounded : ∀ slot s, p.segmentAt slot = some s → s.finish < Offset.bound
  apart : ∀ i j s t, p.segmentAt i = some s → p.segmentAt j = some t → i ≠ j → s.Apart t

/-- The parts of a pool agree, the counter of free bytes included. -/
structure Sound (p : Pool) : Prop extends Indexed p where
  counter : p.freeBytes = Offset.total (p.segments.map Segment.size)

theorem sound_empty : Sound empty := by
  refine ⟨⟨?_, ?_, ?_, ?_, ?_, ?_, ?_, ?_, ?_⟩, ?_⟩ <;>
    simp [empty, segmentAt, segments, stack, Index.empty, Index.get?, Index.values, Offset.total]

/-! ## The free segments -/

theorem mem_segments {p : Pool} (h : Indexed p) {s : Segment} :
    s ∈ p.segments ↔ ∃ slot, p.segmentAt slot = some s := by
  simp only [segments, Index.values, List.mem_filterMap, List.mem_map]
  constructor
  · rintro ⟨slot, _, hs⟩
    exact ⟨slot, hs⟩
  · rintro ⟨slot, hs⟩
    exact ⟨slot, ⟨(s.position, slot), (h.position_iff _ _).2 ⟨s, hs, rfl⟩, rfl⟩, hs⟩

/-- Each free segment ends before the next one starts. -/
theorem Indexed.segments_sorted {p : Pool} (h : Indexed p) :
    p.segments.Pairwise fun s t => s.finish < t.position := by
  unfold segments Index.values
  rw [List.pairwise_filterMap, List.pairwise_map]
  apply p.byPosition.sorted.imp_of_mem
  intro a b ha hb hlt s hs t ht
  obtain ⟨s', hs', hsp⟩ := (h.position_iff a.1 a.2).1 ha
  obtain ⟨t', ht', htp⟩ := (h.position_iff b.1 b.2).1 hb
  obtain rfl : s' = s := Option.some.inj (hs'.symm.trans hs)
  obtain rfl : t' = t := Option.some.inj (ht'.symm.trans ht)
  have hne : a.2 ≠ b.2 := by
    intro same
    rw [same, ht'] at hs'
    obtain rfl := Option.some.inj hs'
    omega
  rcases h.apart _ _ _ _ hs' ht' hne with hst | hts
  · exact hst
  · unfold Segment.finish at hts
    omega

theorem Indexed.eq_of_position_eq {p : Pool} (h : Indexed p) {s t : Segment} (hs : s ∈ p.segments)
    (ht : t ∈ p.segments) (heq : s.position = t.position) : s = t := by
  obtain ⟨i, hi⟩ := (mem_segments h).1 hs
  obtain ⟨j, hj⟩ := (mem_segments h).1 ht
  have hij : i = j := by
    by_contra hij
    have := h.apart _ _ _ _ hi hj hij
    unfold Segment.Apart Segment.finish at this
    omega
  subst hij
  rw [hi] at hj
  exact Option.some.inj hj

theorem Indexed.segments_nodup {p : Pool} (h : Indexed p) : p.segments.Nodup := by
  apply h.segments_sorted.imp
  rintro s t hst rfl
  unfold Segment.finish at hst
  omega

/-! ## Insertion -/

/-- The slot that the next insertion fills. -/
def nextSlot (p : Pool) : Nat := p.vacant.headD p.slots.length

theorem segmentAt_nextSlot {p : Pool} (h : Indexed p) : p.segmentAt p.nextSlot = none := by
  unfold segmentAt nextSlot
  cases hv : p.vacant with
  | nil => simp
  | cons slot rest =>
    have hslot : p.slots[slot]? = some none := (h.vacant_iff slot).1 (by rw [hv]; simp)
    simp [hslot]

/-- An insertion fills one slot, a vacant or a new one. -/
theorem slots_insert {p : Pool} (h : Indexed p) (segment : Segment) (slot : Nat) :
    (p.insert segment).slots[slot]? =
      if slot = p.nextSlot then some (some segment) else p.slots[slot]? := by
  by_cases heq : slot = p.nextSlot
  · rw [if_pos heq, heq]
    unfold insert nextSlot
    cases hv : p.vacant with
    | nil => simp
    | cons first rest =>
      have hfirst : p.slots[first]? = some none := (h.vacant_iff first).1 (by rw [hv]; simp)
      have hlt : first < p.slots.length := (List.getElem?_eq_some_iff.1 hfirst).1
      simp [hlt]
  · rw [if_neg heq]
    revert heq
    unfold insert nextSlot
    cases hv : p.vacant with
    | nil =>
      intro heq
      simp only [List.headD_nil] at heq
      simp only [List.getElem?_append]
      split
      · rfl
      · rw [List.getElem?_eq_none (by omega : p.slots.length ≤ slot), List.getElem?_eq_none]
        simp only [List.length_singleton]
        omega
    | cons first rest =>
      intro heq
      simp only [List.headD_cons] at heq
      simp only [List.getElem?_set, if_neg (Ne.symm heq)]

theorem segmentAt_insert {p : Pool} (h : Indexed p) (segment : Segment) (slot : Nat) :
    (p.insert segment).segmentAt slot =
      if slot = p.nextSlot then some segment else p.segmentAt slot := by
  rw [segmentAt, slots_insert h]
  split <;> rfl

theorem bySize_insert (p : Pool) (segment : Segment) : (p.insert segment).bySize =
    p.bySize.insert segment.size (p.nextSlot :: p.stack segment.size) := by
  unfold insert nextSlot
  cases p.vacant <;> rfl

theorem stack_insert (p : Pool) (segment : Segment) (size : Nat) :
    (p.insert segment).stack size =
      if size = segment.size then p.nextSlot :: p.stack segment.size else p.stack size := by
  rw [stack, bySize_insert, Index.get?_insert]
  split <;> rfl

theorem mem_byPosition_insert (p : Pool) (segment : Segment) (e : Nat × Nat) :
    e ∈ (p.insert segment).byPosition.entries ↔
      e = (segment.position, p.nextSlot) ∨ (e ∈ p.byPosition.entries ∧ e.1 ≠ segment.position) := by
  have hposition : (p.insert segment).byPosition =
      p.byPosition.insert segment.position p.nextSlot := by
    unfold insert nextSlot
    cases p.vacant <;> rfl
  rw [hposition, Index.mem_entries_insert]

theorem vacant_insert (p : Pool) (segment : Segment) :
    (p.insert segment).vacant = p.vacant.tail := by
  unfold insert
  cases p.vacant <;> rfl

theorem freeBytes_insert (p : Pool) (segment : Segment) :
    (p.insert segment).freeBytes = p.freeBytes + segment.size := by
  unfold insert
  cases p.vacant <;> rfl

theorem mem_vacant_insert {p : Pool} (h : Indexed p) (segment : Segment) (slot : Nat) :
    slot ∈ (p.insert segment).vacant ↔ slot ≠ p.nextSlot ∧ slot ∈ p.vacant := by
  rw [vacant_insert, nextSlot]
  have hnodup := h.vacant_nodup
  cases hv : p.vacant with
  | nil => simp
  | cons first rest =>
    rw [hv] at hnodup
    have hfresh := (List.nodup_cons.1 hnodup).1
    simp only [List.tail_cons, List.headD_cons, List.mem_cons]
    constructor
    · intro hmem
      exact ⟨fun heq => hfresh (heq ▸ hmem), .inr hmem⟩
    · rintro ⟨hne, heq | hmem⟩
      · exact absurd heq hne
      · exact hmem

/-- A slot holds the new segment, or what it held before. -/
theorem segmentAt_insert_iff {p : Pool} (h : Indexed p) {segment : Segment} (slot : Nat)
    (s : Segment) : (p.insert segment).segmentAt slot = some s ↔
      (slot = p.nextSlot ∧ s = segment) ∨ p.segmentAt slot = some s := by
  rw [segmentAt_insert h]
  split
  · next heq =>
    subst heq
    simp [segmentAt_nextSlot h, eq_comm]
  · next hne => simp [hne]

theorem position_insert_iff {p : Pool} (h : Indexed p) {segment : Segment}
    (hapart : ∀ s ∈ p.segments, s.Apart segment) (position slot : Nat) :
    (position, slot) ∈ (p.insert segment).byPosition.entries ↔
      ∃ s, (p.insert segment).segmentAt slot = some s ∧ s.position = position := by
  rw [mem_byPosition_insert]
  constructor
  · rintro (heq | ⟨hmem, _⟩)
    · exact ⟨segment, (segmentAt_insert_iff h _ _).2 (.inl ⟨congrArg Prod.snd heq, rfl⟩),
        (congrArg Prod.fst heq).symm⟩
    · obtain ⟨s, hs, hposition⟩ := (h.position_iff _ _).1 hmem
      exact ⟨s, (segmentAt_insert_iff h _ _).2 (.inr hs), hposition⟩
  · rintro ⟨s, hs, rfl⟩
    rcases (segmentAt_insert_iff h _ _).1 hs with ⟨rfl, rfl⟩ | hs
    · exact .inl rfl
    · have hne : s.position ≠ segment.position := by
        have := hapart s ((mem_segments h).2 ⟨slot, hs⟩)
        unfold Segment.Apart Segment.finish at this
        omega
      exact .inr ⟨(h.position_iff _ _).2 ⟨s, hs, rfl⟩, hne⟩

theorem stack_insert_iff {p : Pool} (h : Indexed p) (segment : Segment) (size slot : Nat) :
    slot ∈ (p.insert segment).stack size ↔
      ∃ s, (p.insert segment).segmentAt slot = some s ∧ s.size = size := by
  rw [stack_insert]
  constructor
  · intro hmem
    split at hmem
    · next heq =>
      rcases List.mem_cons.1 hmem with rfl | hmem
      · exact ⟨segment, (segmentAt_insert_iff h _ _).2 (.inl ⟨rfl, rfl⟩), heq.symm⟩
      · obtain ⟨s, hs, hsize⟩ := (h.stack_iff _ _).1 hmem
        exact ⟨s, (segmentAt_insert_iff h _ _).2 (.inr hs), hsize.trans heq.symm⟩
    · obtain ⟨s, hs, hsize⟩ := (h.stack_iff _ _).1 hmem
      exact ⟨s, (segmentAt_insert_iff h _ _).2 (.inr hs), hsize⟩
  · rintro ⟨s, hs, rfl⟩
    rcases (segmentAt_insert_iff h _ _).1 hs with ⟨rfl, rfl⟩ | hs
    · simp
    · have hmem := (h.stack_iff _ _).2 ⟨s, hs, rfl⟩
      split
      · next heq =>
        rw [heq] at hmem
        exact List.mem_cons_of_mem _ hmem
      · exact hmem

theorem stack_insert_nodup {p : Pool} (h : Indexed p) (segment : Segment) (size : Nat) :
    ((p.insert segment).stack size).Nodup := by
  rw [stack_insert]
  split
  · refine List.nodup_cons.2 ⟨?_, h.stack_nodup _⟩
    intro hmem
    obtain ⟨s, hs, _⟩ := (h.stack_iff _ _).1 hmem
    rw [segmentAt_nextSlot h] at hs
    cases hs
  · exact h.stack_nodup _

theorem Indexed.insert {p : Pool} (h : Indexed p) {segment : Segment} (hsize : 0 < segment.size)
    (hbound : segment.finish < Offset.bound) (hapart : ∀ s ∈ p.segments, s.Apart segment) :
    Indexed (p.insert segment) := by
  have held : ∀ slot s, (p.insert segment).segmentAt slot = some s ↔
      (slot = p.nextSlot ∧ s = segment) ∨ p.segmentAt slot = some s := segmentAt_insert_iff h
  refine ⟨position_insert_iff h hapart, stack_insert_iff h segment, stack_insert_nodup h segment,
    ?_, ?_, ?_, ?_, ?_, ?_⟩
  · intro size
    rw [bySize_insert, Index.get?_insert]
    split
    · simp
    · exact h.stack_ne_nil _
  · rw [vacant_insert]
    exact h.vacant_nodup.tail
  · intro slot
    rw [mem_vacant_insert h, slots_insert h, h.vacant_iff]
    split
    · next heq => simp [heq]
    · next hne => simp [hne]
  · intro slot s hs
    rcases (held _ _).1 hs with ⟨_, rfl⟩ | hs
    · exact hsize
    · exact h.nonempty _ _ hs
  · intro slot s hs
    rcases (held _ _).1 hs with ⟨_, rfl⟩ | hs
    · exact hbound
    · exact h.bounded _ _ hs
  · -- two segments that were there are apart as before; the new one is apart from each of them
    intro i j s t hi hj hij
    rcases (held _ _).1 hi with ⟨rfl, rfl⟩ | hi' <;> rcases (held _ _).1 hj with ⟨rfl, rfl⟩ | hj'
    · exact absurd rfl hij
    · exact (hapart t ((mem_segments h).2 ⟨j, hj'⟩)).symm
    · exact hapart s ((mem_segments h).2 ⟨i, hi'⟩)
    · exact h.apart _ _ _ _ hi' hj' hij

theorem mem_segments_insert {p : Pool} {segment : Segment} (h : Indexed p)
    (hi : Indexed (p.insert segment)) {s : Segment} :
    s ∈ (p.insert segment).segments ↔ s = segment ∨ s ∈ p.segments := by
  rw [mem_segments hi, mem_segments h]
  constructor
  · rintro ⟨slot, hs⟩
    rw [segmentAt_insert h] at hs
    split at hs
    · exact .inl (Option.some.inj hs).symm
    · exact .inr ⟨slot, hs⟩
  · rintro (rfl | ⟨slot, hs⟩)
    · exact ⟨p.nextSlot, by rw [segmentAt_insert h, if_pos rfl]⟩
    · refine ⟨slot, ?_⟩
      rw [segmentAt_insert h, if_neg, hs]
      rintro rfl
      rw [segmentAt_nextSlot h] at hs
      cases hs

/-- The listing after an insertion holds the new segment and those before, in some order. -/
theorem segments_insert_perm {p : Pool} {segment : Segment} (h : Indexed p)
    (hi : Indexed (p.insert segment)) (hapart : ∀ s ∈ p.segments, s.Apart segment) :
    (p.insert segment).segments.Perm (segment :: p.segments) := by
  refine (List.perm_ext_iff_of_nodup hi.segments_nodup
    (List.nodup_cons.2 ⟨?_, h.segments_nodup⟩)).2 ?_
  · intro hmem
    have := hapart segment hmem
    unfold Segment.Apart Segment.finish at this
    omega
  · intro s
    rw [mem_segments_insert h hi, List.mem_cons]

/-- A segment apart from the others may be put in. -/
theorem Sound.insert {p : Pool} (h : Sound p) {segment : Segment} (hsize : 0 < segment.size)
    (hbound : segment.finish < Offset.bound) (hapart : ∀ s ∈ p.segments, s.Apart segment) :
    Sound (p.insert segment) := by
  have hi := h.toIndexed.insert hsize hbound hapart
  refine ⟨hi, ?_⟩
  have hperm := segments_insert_perm h.toIndexed hi hapart
  calc (p.insert segment).freeBytes
      = segment.size + Offset.total (p.segments.map Segment.size) := by
        rw [freeBytes_insert, h.counter, Nat.add_comm]
    _ = Offset.total ((segment :: p.segments).map Segment.size) := rfl
    _ = Offset.total ((p.insert segment).segments.map Segment.size) :=
        (Offset.total_perm (hperm.map _)).symm

/-! ## Removal -/

theorem remove_of_vacant {p : Pool} {slot : Nat} (hs : p.segmentAt slot = none) :
    p.remove slot = p := by
  simp only [remove, hs]

theorem slots_remove {p : Pool} {slot : Nat} {s : Segment} (hs : p.segmentAt slot = some s) :
    (p.remove slot).slots = p.slots.set slot none := by
  simp only [remove, hs]

/-- What a removal leaves in the size index under any size. -/
theorem get?_bySize_remove {p : Pool} {slot : Nat} {s : Segment}
    (hs : p.segmentAt slot = some s) (size : Nat) :
    (p.remove slot).bySize.get? size =
      if size = s.size then
        if ((p.stack s.size).erase slot).isEmpty then none else some ((p.stack s.size).erase slot)
      else p.bySize.get? size := by
  simp only [remove, hs]
  by_cases hempty : ((p.stack s.size).erase slot).isEmpty = true
  · simp only [if_pos hempty, Index.get?_erase]
  · simp only [if_neg hempty, Index.get?_insert]

theorem segmentAt_remove (p : Pool) (slot other : Nat) :
    (p.remove slot).segmentAt other = if other = slot then none else p.segmentAt other := by
  cases hs : p.segmentAt slot with
  | none =>
    rw [remove_of_vacant hs]
    split
    · next heq => rw [heq, hs]
    · rfl
  | some s =>
    rw [segmentAt, slots_remove hs, List.getElem?_set]
    by_cases heq : slot = other
    · subst heq
      rw [if_pos rfl, if_pos rfl]
      split <;> rfl
    · rw [if_neg heq, if_neg (Ne.symm heq), segmentAt]

theorem stack_remove {p : Pool} {slot : Nat} {s : Segment} (hs : p.segmentAt slot = some s)
    (size : Nat) :
    (p.remove slot).stack size =
      if size = s.size then (p.stack size).erase slot else p.stack size := by
  rw [stack, get?_bySize_remove hs]
  split
  · next heq =>
    subst heq
    split
    · next hempty => exact (List.isEmpty_iff.1 hempty).symm
    · rfl
  · rfl

theorem segmentAt_remove_iff (p : Pool) (slot other : Nat) (t : Segment) :
    (p.remove slot).segmentAt other = some t ↔ other ≠ slot ∧ p.segmentAt other = some t := by
  rw [segmentAt_remove]
  split <;> simp [*]

theorem vacant_remove {p : Pool} {slot : Nat} {s : Segment} (hs : p.segmentAt slot = some s) :
    (p.remove slot).vacant = slot :: p.vacant := by
  simp only [remove, hs]

/-- The slot is vacant now, and so are those that were. -/
theorem slots_remove_iff {p : Pool} {slot : Nat} {s : Segment} (hs : p.segmentAt slot = some s)
    (other : Nat) :
    (p.remove slot).slots[other]? = some none ↔ other = slot ∨ p.slots[other]? = some none := by
  have hlt : slot < p.slots.length := by
    by_contra hge
    rw [segmentAt, List.getElem?_eq_none (by omega)] at hs
    cases hs
  rw [slots_remove hs, List.getElem?_set]
  by_cases heq : slot = other
  · simp [← heq, hlt]
  · simp [heq, Ne.symm heq]

theorem position_remove_iff {p : Pool} (h : Indexed p) {slot : Nat} {s : Segment}
    (hs : p.segmentAt slot = some s) (position other : Nat) :
    (position, other) ∈ (p.remove slot).byPosition.entries ↔
      ∃ t, (p.remove slot).segmentAt other = some t ∧ t.position = position := by
  have hentries : (position, other) ∈ (p.remove slot).byPosition.entries ↔
      (position, other) ∈ p.byPosition.entries ∧ position ≠ s.position := by
    simp only [remove, hs]
    exact Index.mem_entries_erase _
  rw [hentries, h.position_iff]
  constructor
  · rintro ⟨⟨t, ht, rfl⟩, hne⟩
    refine ⟨t, (segmentAt_remove_iff p _ _ _).2 ⟨?_, ht⟩, rfl⟩
    rintro rfl
    rw [hs] at ht
    cases ht
    exact hne rfl
  · rintro ⟨t, ht, rfl⟩
    obtain ⟨hne, ht⟩ := (segmentAt_remove_iff p _ _ _).1 ht
    refine ⟨⟨t, ht, rfl⟩, ?_⟩
    have := h.apart _ _ _ _ ht hs hne
    unfold Segment.Apart Segment.finish at this
    omega

theorem stack_remove_iff {p : Pool} (h : Indexed p) {slot : Nat} {s : Segment}
    (hs : p.segmentAt slot = some s) (size other : Nat) :
    other ∈ (p.remove slot).stack size ↔
      ∃ t, (p.remove slot).segmentAt other = some t ∧ t.size = size := by
  rw [stack_remove hs]
  constructor
  · intro hmem
    split at hmem
    · obtain ⟨hne, hmem⟩ := ((h.stack_nodup size).mem_erase_iff).1 hmem
      obtain ⟨t, ht, hsize⟩ := (h.stack_iff _ _).1 hmem
      exact ⟨t, (segmentAt_remove_iff p _ _ _).2 ⟨hne, ht⟩, hsize⟩
    · next hne =>
      obtain ⟨t, ht, hsize⟩ := (h.stack_iff _ _).1 hmem
      refine ⟨t, (segmentAt_remove_iff p _ _ _).2 ⟨?_, ht⟩, hsize⟩
      rintro rfl
      rw [hs] at ht
      cases ht
      exact hne hsize.symm
  · rintro ⟨t, ht, rfl⟩
    obtain ⟨hne, ht⟩ := (segmentAt_remove_iff p _ _ _).1 ht
    have hmem := (h.stack_iff _ _).2 ⟨t, ht, rfl⟩
    split
    · exact ((h.stack_nodup _).mem_erase_iff).2 ⟨hne, hmem⟩
    · exact hmem

theorem Indexed.remove {p : Pool} (h : Indexed p) (slot : Nat) : Indexed (p.remove slot) := by
  cases hs : p.segmentAt slot with
  | none =>
    rw [remove_of_vacant hs]
    exact h
  | some s =>
    have held := segmentAt_remove_iff p slot
    refine ⟨position_remove_iff h hs, stack_remove_iff h hs, ?_, ?_, ?_, ?_, ?_, ?_, ?_⟩
    · intro size
      rw [stack_remove hs]
      split
      · exact (h.stack_nodup size).erase slot
      · exact h.stack_nodup size
    · intro size
      rw [get?_bySize_remove hs]
      split
      · split
        · simp
        · next hfull => simpa using hfull
      · exact h.stack_ne_nil size
    · have hfresh : slot ∉ p.vacant := by
        intro hmem
        rw [segmentAt, (h.vacant_iff slot).1 hmem] at hs
        cases hs
      rw [vacant_remove hs]
      exact List.nodup_cons.2 ⟨hfresh, h.vacant_nodup⟩
    · intro other
      rw [slots_remove_iff hs, ← h.vacant_iff, vacant_remove hs]
      exact List.mem_cons
    · intro other t ht
      exact h.nonempty _ _ ((held _ _).1 ht).2
    · intro other t ht
      exact h.bounded _ _ ((held _ _).1 ht).2
    · intro i j t u hi hj hij
      exact h.apart _ _ _ _ ((held _ _).1 hi).2 ((held _ _).1 hj).2 hij

theorem mem_segments_remove {p : Pool} (h : Indexed p) {slot : Nat} {s : Segment}
    (hs : p.segmentAt slot = some s) {t : Segment} :
    t ∈ (p.remove slot).segments ↔ t ∈ p.segments ∧ t ≠ s := by
  rw [mem_segments (h.remove slot), mem_segments h]
  constructor
  · rintro ⟨other, ht⟩
    rw [segmentAt_remove] at ht
    split at ht
    · cases ht
    · next hne =>
      refine ⟨⟨other, ht⟩, ?_⟩
      rintro rfl
      have := h.apart _ _ _ _ ht hs hne
      unfold Segment.Apart Segment.finish at this
      omega
  · rintro ⟨⟨other, ht⟩, hne⟩
    refine ⟨other, ?_⟩
    rw [segmentAt_remove, if_neg, ht]
    rintro rfl
    rw [hs] at ht
    cases ht
    exact hne rfl

/-- The listing before a removal holds the removed segment and those after, in some order. -/
theorem segments_remove_perm {p : Pool} (h : Indexed p) {slot : Nat} {s : Segment}
    (hs : p.segmentAt slot = some s) : p.segments.Perm (s :: (p.remove slot).segments) := by
  refine (List.perm_ext_iff_of_nodup h.segments_nodup
    (List.nodup_cons.2 ⟨?_, (h.remove slot).segments_nodup⟩)).2 ?_
  · intro hmem
    exact ((mem_segments_remove h hs).1 hmem).2 rfl
  · intro t
    rw [List.mem_cons, mem_segments_remove h hs]
    constructor
    · intro ht
      by_cases heq : t = s
      · exact .inl heq
      · exact .inr ⟨ht, heq⟩
    · rintro (rfl | ⟨ht, _⟩)
      · exact (mem_segments h).2 ⟨slot, hs⟩
      · exact ht

/-- Any slot may be emptied. -/
theorem Sound.remove {p : Pool} (h : Sound p) (slot : Nat) : Sound (p.remove slot) := by
  refine ⟨h.toIndexed.remove slot, ?_⟩
  cases hs : p.segmentAt slot with
  | none =>
    rw [remove_of_vacant hs]
    exact h.counter
  | some s =>
    have hperm := segments_remove_perm h.toIndexed hs
    have hbytes : (p.remove slot).freeBytes = p.freeBytes - s.size := by
      simp only [Pool.remove, hs]
    rw [hbytes, h.counter, Offset.total_perm (hperm.map Segment.size), List.map_cons, Offset.total]
    omega

end Pool

end SpillStorage
