import SpillStorage.Proofs.Pool.Consistency
import SpillStorage.Proofs.Pool.FreeBytes

/-!
The audit of a sound pool.

What is proved:
  1. `Sound.consistent`: a sound pool whose segments end at or before the limit is consistent.
  2. `audit_eq_nil`: so its audit is empty.
-/

namespace SpillStorage.Pool

/-- An occupied slot has one size, so it stands in one stack. -/
theorem stacks_nodup {p : Pool} (h : Sound p) : p.bySize.values.flatten.Nodup := by
  rw [List.nodup_flatten]
  constructor
  · intro l hl
    obtain ⟨e, he, rfl⟩ := List.mem_map.1 hl
    rw [← stack_of_mem_bySize he]
    exact h.stack_nodup _
  · rw [Index.values, List.pairwise_map]
    refine p.bySize.sorted.imp_of_mem fun {a b} ha hb hlt => ?_
    -- a slot holds one segment, and that has one size
    intro slot hsa hsb
    rw [← stack_of_mem_bySize ha, h.stack_iff] at hsa
    rw [← stack_of_mem_bySize hb, h.stack_iff] at hsb
    obtain ⟨s, hs, hsize⟩ := hsa
    obtain ⟨t, ht, hsize'⟩ := hsb
    rw [hs] at ht
    cases ht
    omega

theorem mem_positions_iff {p : Pool} (h : Sound p) {slot : Nat} :
    slot ∈ p.byPosition.values ↔ ∃ s, p.segmentAt slot = some s := by
  constructor
  · intro hslot
    obtain ⟨e, he, rfl⟩ := List.mem_map.1 hslot
    obtain ⟨s, -, hs, -⟩ := occupied_of_mem h he
    exact ⟨s, hs⟩
  · rintro ⟨s, hs⟩
    exact List.mem_map.2 ⟨(s.position, slot), (h.position_iff _ _).2 ⟨s, hs, rfl⟩, rfl⟩

/-- In a sound pool the indexes, the slots and the counter agree. -/
theorem Sound.consistent {p : Pool} (h : Sound p) {limit : Nat}
    (hlimit : ∀ s ∈ p.segments, s.finish ≤ limit) : p.Consistent limit := by
  refine ⟨fun e he => ?_, fun s hs => ?_, h.segments_sorted, hlimit, fun slot hslot => ?_,
    fun e he slot hslot => ?_, fun e he hnil => ?_, h.counter⟩
  · obtain ⟨s, -, hs, hposition⟩ := occupied_of_mem h he
    exact ⟨s, hs, hposition⟩
  · obtain ⟨slot, hslot⟩ := (mem_segments h.toIndexed).1 hs
    exact h.nonempty slot s hslot
  · obtain ⟨s, hs⟩ := (mem_positions_iff h).1 hslot
    have hstack : slot ∈ p.stack s.size := (h.stack_iff _ _).2 ⟨s, hs, rfl⟩
    exact List.count_eq_one_of_mem (stacks_nodup h) (mem_stacks_iff.2 ⟨s.size, hstack⟩)
  · rw [← stack_of_mem_bySize he, h.stack_iff] at hslot
    obtain ⟨s, hs, hsize⟩ := hslot
    exact ⟨(mem_positions_iff h).2 ⟨s, hs⟩, s, hs, hsize⟩
  · refine h.stack_ne_nil e.1 ((p.bySize.get?_eq_some_iff).2 ?_)
    rw [← hnil]
    exact he

/-- The audit finds nothing in a sound pool that stays below the limit. -/
theorem audit_eq_nil {p : Pool} (h : Sound p) {limit : Nat}
    (hlimit : ∀ s ∈ p.segments, s.finish ≤ limit) : p.audit limit = [] :=
  (h.consistent hlimit).audit_eq_nil

end SpillStorage.Pool
