import Mathlib.Data.List.ReduceOption
import SpillStorage.Proofs.Pool.Audit
import SpillStorage.Proofs.Pool.Canonical

/-!
The slots of a pool: each is vacant or listed, and there are as many as were occupied at once.

What is proved:
  1. `length_slots`: a sound pool has a slot for each segment and for each vacancy, and no other.
  2. `Stretches.insert`, `Stretches.fill`, `Stretches.cut` and `Stretches.serve`: slots are added
     only when no slot is vacant, so a request adds as many as the pool then lists more than it
     ever had slots for.
  3. `slots_kept_in_step`: after every run slots, vacancies, indexes and counter tell one story,
     and the slots are as many as the most segments that the pool held at any point of the run.

A request empties slots before it fills any. That is why the count in between does not matter: it
never passes both the count before the request and the one after it.
-/

namespace SpillStorage.Pool

variable {p q r : Pool} {s : Segment} {slot : Nat}

/-! ## Slots and vacancies -/

theorem segmentAt_eq_some_iff : p.segmentAt slot = some s ↔ p.slots[slot]? = some (some s) :=
  Option.join_eq_some_iff

/-- The slots listed by position are distinct. -/
theorem Sound.nodup_positions (h : Sound p) : p.byPosition.values.Nodup := by
  apply Placed.nodup
  intro e he
  exact (h.position_iff e.1 e.2).1 he

/-- Every slot is listed by position or vacant. -/
theorem positions_vacant_perm (h : Sound p) :
    (p.byPosition.values ++ p.vacant).Perm (List.range p.slots.length) := by
  have hdisjoint : p.byPosition.values.Disjoint p.vacant := by
    intro slot hlisted hvacant
    obtain ⟨s, hs⟩ := (mem_positions_iff h).1 hlisted
    rw [segmentAt_eq_some_iff, (h.vacant_iff slot).1 hvacant] at hs
    cases hs
  apply (List.perm_ext_iff_of_nodup
    (h.nodup_positions.append h.vacant_nodup hdisjoint) List.nodup_range).2
  intro slot
  simp only [List.mem_append, mem_positions_iff h, segmentAt_eq_some_iff, h.vacant_iff,
    List.mem_range]
  constructor
  · rintro (⟨s, hs⟩ | hnone)
    · exact (List.getElem?_eq_some_iff.1 hs).1
    · exact (List.getElem?_eq_some_iff.1 hnone).1
  · intro hlt
    rw [List.getElem?_eq_getElem hlt]
    cases p.slots[slot] with
    | none => exact .inr rfl
    | some s => exact .inl ⟨s, rfl⟩

/-- There are as many slots as segments and vacancies. -/
theorem length_slots (h : Sound p) : p.slots.length = p.count + p.vacant.length := by
  have hlength := (positions_vacant_perm h).length_eq
  rw [List.length_append, List.length_range, Index.values, List.length_map] at hlength
  exact hlength.symm

/-- The segments in the slots are the free segments, in some order. -/
theorem segments_slots_perm (h : Sound p) : p.segments.Perm p.slots.reduceOption := by
  have hslots : p.slots.reduceOption.Nodup := by
    rw [List.Nodup, List.reduceOption, List.pairwise_filterMap, List.pairwise_iff_getElem]
    rintro i j hi hj hij s hs _ ht rfl
    have hs' : p.segmentAt i = some s :=
      segmentAt_eq_some_iff.2 (List.getElem?_eq_some_iff.2 ⟨hi, hs⟩)
    have ht' : p.segmentAt j = some s :=
      segmentAt_eq_some_iff.2 (List.getElem?_eq_some_iff.2 ⟨hj, ht⟩)
    -- a segment is not apart from itself
    have := h.apart i j s s hs' ht' (Nat.ne_of_lt hij)
    unfold Segment.Apart Segment.finish at this
    omega
  apply (List.perm_ext_iff_of_nodup h.segments_nodup hslots).2
  intro s
  rw [mem_segments h.toIndexed, List.reduceOption_mem_iff, List.mem_iff_getElem?]
  simp only [segmentAt_eq_some_iff]

/-! ## How slots are added -/

/-- From one pool to the other slots were added as far as they were needed. -/
def Stretches (p q : Pool) : Prop := q.slots.length = max p.slots.length q.count

namespace Stretches

theorem refl (h : Sound p) : Stretches p p := by
  have := length_slots h
  unfold Stretches
  omega

/-- Two stretches are one, unless the pool in between held more than both ends could. -/
theorem trans (hpq : Stretches p q) (hqr : Stretches q r)
    (hbetween : q.count ≤ max p.slots.length r.count) : Stretches p r := by
  unfold Stretches at *
  omega

/-- A vacant slot is filled before a new one is made. -/
theorem insert (h : Sound p) (hi : Sound (p.insert s)) :
    Stretches p (p.insert s) ∧ (p.insert s).count = p.count + 1 := by
  have hbefore := length_slots h
  have hafter := length_slots hi
  rw [vacant_insert] at hafter
  unfold Stretches
  cases hv : p.vacant with
  | nil =>
    have hslots : (p.insert s).slots.length = p.slots.length + 1 := by
      simp [Pool.insert, hv]
    simp only [hv, List.tail_nil, List.length_nil] at hbefore hafter
    omega
  | cons slot rest =>
    have hslots : (p.insert s).slots.length = p.slots.length := by
      simp [Pool.insert, hv]
    simp only [hv, List.tail_cons, List.length_cons] at hbefore hafter
    omega

/-- An emptied slot stays. -/
theorem remove (h : Sound p) (hs : p.segmentAt slot = some s) :
    Stretches p (p.remove slot) ∧ (p.remove slot).count + 1 = p.count := by
  have hbefore := length_slots h
  have hafter := length_slots (h.remove slot)
  rw [vacant_remove hs, slots_remove hs, List.length_set, List.length_cons] at hafter
  unfold Stretches
  rw [slots_remove hs, List.length_set]
  omega

theorem fill {start finish : Nat} (h : Sound p) (hi : Sound (p.fill start finish)) :
    Stretches p (p.fill start finish) ∧ p.count ≤ (p.fill start finish).count := by
  unfold Pool.fill at *
  by_cases hlt : start < finish
  · rw [if_pos hlt] at *
    obtain ⟨hstretch, hcount⟩ := insert h hi
    exact ⟨hstretch, by omega⟩
  · rw [if_neg hlt] at *
    exact ⟨refl h, Nat.le_refl _⟩

/-- A cut empties one slot and fills up to two. -/
theorem cut {offset size : Nat} (h : Sound p) (hs : p.segmentAt slot = some s)
    (hsize : 0 < size) (hposition : s.position ≤ offset) (hfinish : offset + size ≤ s.finish) :
    Stretches p (p.cut slot s offset size) := by
  obtain ⟨hrest, hfewer⟩ := remove h hs
  have hheadSound := (head_spec h hs offset (by omega)).1
  obtain ⟨hhead, hmore⟩ := fill (h.remove slot) hheadSound
  obtain ⟨htail, hmore'⟩ := fill hheadSound (cut_spec h hs hsize hposition hfinish).1
  have hfits := length_slots h
  exact (hrest.trans hhead (by omega)).trans htail ((hmore'.trans (Nat.le_max_right _ _)))

/-- Joining empties a slot, or leaves them all. -/
theorem absorb {neighbour : Option (Nat × Segment)} (h : Sound p)
    (hn : ∀ slot t, neighbour = some (slot, t) → p.segmentAt slot = some t) :
    Stretches p (p.absorb s neighbour).1 ∧ (p.absorb s neighbour).1.count ≤ p.count := by
  rcases absorb_cases s neighbour with ⟨heq, -⟩ | ⟨slot, t, rfl, -, heq⟩
  · rw [heq]
    exact ⟨refl h, Nat.le_refl _⟩
  · rw [heq]
    obtain ⟨hstretch, hfewer⟩ := remove h (hn slot t rfl)
    exact ⟨hstretch, Nat.le_of_succ_le (Nat.le_of_eq hfewer)⟩

theorem release {offset size : Nat} (h : Sound p) (hq : p.release offset size = .ok q) :
    Stretches p q := by
  obtain ⟨p₁, joined, p₂, merged, hfirst, hsecond, hjoined, rfl⟩ := release_eq_insert h hq
  obtain ⟨hbefore, hcount⟩ := absorb (s := ⟨offset, size⟩) h
    fun _ _ hn => (neighbourBefore_some h hn).1
  rw [hfirst] at hbefore hcount
  obtain ⟨hafter, hcount'⟩ := absorb (s := joined) hjoined.sound hjoined.kept
  rw [hsecond] at hafter hcount'
  have hp₂ : Sound p₂ := by
    have := (absorb_bytes (s := joined) hjoined.sound hjoined.kept).1
    rwa [hsecond] at this
  have hfits := length_slots h
  simp only at hbefore hcount hafter hcount'
  exact ((hbefore.trans hafter (by omega)).trans (insert hp₂ hjoined.insert).1 (by omega))

/-- Every request stretches a pool, met or not. -/
theorem serve (h : Sound p) (request : Request) : Stretches p (p.serve request) := by
  cases request with
  | release offset size =>
    simp only [Pool.serve]
    cases hq : p.release offset size with
    | ok q => exact release h hq
    | error f => exact refl h
  | allocate size =>
    simp only [Pool.serve]
    cases hq : p.allocate size with
    | none => exact refl h
    | some found =>
      obtain ⟨offset, q⟩ := found
      obtain ⟨hsize, slot, s, hs, rfl, hfits, rfl⟩ := allocate_eq_cut h hq
      exact cut h hs hsize (Nat.le_refl _) (Nat.add_le_add_left hfits _)
  | take offset size =>
    simp only [Pool.serve]
    cases hq : p.take offset size with
    | error f => exact refl h
    | ok q =>
      rcases take_cases h hq with ⟨-, rfl⟩ | ⟨hsize, slot, s, hs, hposition, hfinish, rfl⟩
      · exact refl h
      · exact cut h hs hsize hposition hfinish

end Stretches

/-! ## Runs -/

theorem run_concat (p : Pool) (requests : List Request) (request : Request) :
    p.run (requests ++ [request]) = (p.run requests).serve request := by
  rw [run, List.foldl_append]
  rfl

/-- The slots are as many as the most segments at any point of a run. -/
theorem slots_isGreatest (requests : List Request) :
    IsGreatest {n | ∃ earlier, earlier <+: requests ∧ (empty.run earlier).count = n}
      (empty.run requests).slots.length := by
  induction requests using List.reverseRecOn with
  | nil =>
    refine ⟨⟨[], List.prefix_refl _, rfl⟩, ?_⟩
    rintro n ⟨earlier, hearlier, rfl⟩
    rw [List.prefix_nil.1 hearlier]
    exact Nat.le_refl _
  | append_singleton requests request ih =>
    have hstretch := Stretches.serve (sound_empty.run requests) request
    unfold Stretches at hstretch
    rw [run_concat, hstretch]
    constructor
    · rcases Nat.le_total (empty.run requests).slots.length
        ((empty.run requests).serve request).count with hle | hle
      · rw [max_eq_right hle]
        exact ⟨requests ++ [request], List.prefix_refl _, by rw [run_concat]⟩
      · rw [max_eq_left hle]
        obtain ⟨earlier, hearlier, hcount⟩ := ih.1
        exact ⟨earlier, hearlier.trans (List.prefix_append _ _), hcount⟩
    · rintro n ⟨earlier, hearlier, rfl⟩
      rcases List.prefix_concat_iff.1 hearlier with rfl | hearlier
      · rw [run_concat]
        exact Nat.le_max_right _ _
      · exact (ih.2 ⟨earlier, hearlier, rfl⟩).trans (Nat.le_max_left _ _)

/-- The parts of a pool keep in step. After every run of requests from the empty pool, met or not:
the entries by position are the occupied slots, each under the position of its segment, and the
stacks hold the occupied slots, each under the size of its segment; every occupied slot stands in
each of the two indexes once; no stack is empty; the list of vacant slots has no slot twice and
holds exactly the empty ones; the counter is the sum over the occupied slots; and there are as many
slots as the most segments that the pool held at any point of the run, so no slot is lost. -/
theorem slots_kept_in_step (requests : List Request) :
    let p := empty.run requests
    (∀ position slot, (position, slot) ∈ p.byPosition.entries ↔
      ∃ s, p.slots[slot]? = some (some s) ∧ s.position = position) ∧
    (∀ size slot, (∃ stack, (size, stack) ∈ p.bySize.entries ∧ slot ∈ stack) ↔
      ∃ s, p.slots[slot]? = some (some s) ∧ s.size = size) ∧
    (∀ slot s, p.slots[slot]? = some (some s) →
      p.byPosition.values.count slot = 1 ∧ p.bySize.values.flatten.count slot = 1) ∧
    (∀ e ∈ p.bySize.entries, e.2 ≠ []) ∧
    p.vacant.Nodup ∧ (∀ slot, slot ∈ p.vacant ↔ p.slots[slot]? = some none) ∧
    p.freeBytes = Offset.total (p.slots.reduceOption.map Segment.size) ∧
    IsGreatest {n | ∃ earlier, earlier <+: requests ∧ (empty.run earlier).count = n}
      p.slots.length := by
  intro p
  have h : p.Sound := sound_empty.run requests
  have hstack : ∀ size slot,
      (∃ stack, (size, stack) ∈ p.bySize.entries ∧ slot ∈ stack) ↔ slot ∈ p.stack size := by
    intro size slot
    rw [mem_stack_iff]
    constructor
    · rintro ⟨stack, he, hslot⟩
      exact ⟨(size, stack), he, rfl, hslot⟩
    · rintro ⟨⟨_, stack⟩, he, rfl, hslot⟩
      exact ⟨stack, he, hslot⟩
  refine ⟨fun position slot => ?_, fun size slot => ?_, fun slot s hs => ⟨?_, ?_⟩, ?_,
    h.vacant_nodup, h.vacant_iff, ?_, slots_isGreatest requests⟩
  · rw [h.position_iff]
    simp only [segmentAt_eq_some_iff]
  · rw [hstack, h.stack_iff]
    simp only [segmentAt_eq_some_iff]
  · exact List.count_eq_one_of_mem h.nodup_positions
      ((mem_positions_iff h).2 ⟨s, segmentAt_eq_some_iff.2 hs⟩)
  · have hmem : slot ∈ p.stack s.size :=
      (h.stack_iff _ _).2 ⟨s, segmentAt_eq_some_iff.2 hs, rfl⟩
    exact List.count_eq_one_of_mem (stacks_nodup h) (mem_stacks_iff.2 ⟨s.size, hmem⟩)
  · intro e he hnil
    apply h.stack_ne_nil e.1
    rw [p.bySize.get?_eq_some_iff, ← hnil]
    exact he
  · calc p.freeBytes = Offset.total (p.segments.map Segment.size) := h.counter
      _ = Offset.total (p.slots.reduceOption.map Segment.size) :=
        Offset.total_perm ((segments_slots_perm h).map Segment.size)

/-- A range taken from the middle needs a second slot; what is emptied later is filled again. -/
example : (empty.run [.release 0 10, .take 4 2, .allocate 4, .release 20 1]).slots.length = 2 := by
  decide

end SpillStorage.Pool
