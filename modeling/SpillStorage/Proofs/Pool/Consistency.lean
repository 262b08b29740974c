import Mathlib.Data.List.Perm.Subperm
import Mathlib.Tactic.Tauto
import SpillStorage.Pool.Audit
import SpillStorage.Proofs.Index
import SpillStorage.Proofs.Offset

/-!
What the audit decides of a pool, whatever its history or its damage.

What is proved:
  1. `positionFlaws_eq_nil_iff`: the entries by position show no flaw exactly if each leads to a
     segment at its key, non-empty, within the limit, listed under its size, and past the one
     before it.
  2. `stacks_perm`: where every listed slot stands in the stack of its size and both indexes hold
     as many slots, they hold the same slots, once each.
  3. `audit_decides`: the audit is empty exactly if the pool is consistent.

The audit never compares the two indexes. That they agree is a count: the slots by position are
distinct, each of them stands in some stack, and the stacks hold no more slots than that.
-/

namespace SpillStorage.Pool

/-- Every entry by position leads to a segment that starts there. -/
def Placed (p : Pool) : Prop :=
  ∀ e ∈ p.byPosition.entries, ∃ s, p.segmentAt e.2 = some s ∧ s.position = e.1

/-- The indexes, the slots and the counter of a pool agree, and its free segments keep apart below
`limit`. -/
structure Consistent (p : Pool) (limit : Nat) : Prop where
  placed : p.Placed
  nonempty : ∀ s ∈ p.segments, 0 < s.size
  apart : p.segments.Pairwise fun s t => s.finish < t.position
  within : ∀ s ∈ p.segments, s.finish ≤ limit
  /-- A slot listed by position stands in the stacks once. -/
  once : ∀ slot ∈ p.byPosition.values, p.bySize.values.flatten.count slot = 1
  /-- What stands in a stack is listed by position, and holds a segment of that size. -/
  sized : ∀ e ∈ p.bySize.entries, ∀ slot ∈ e.2,
    slot ∈ p.byPosition.values ∧ ∃ s, p.segmentAt slot = some s ∧ s.size = e.1
  filled : ∀ e ∈ p.bySize.entries, e.2 ≠ []
  counted : p.freeBytes = Offset.total (p.segments.map Segment.size)

variable {p : Pool} {limit : Nat}

/-! ## The entries in order -/

/-- An entry shows no flaw: its segment starts at the key, is not empty, ends within the limit and
is listed under its size. -/
def SoundEntry (p : Pool) (limit : Nat) (e : Nat × Nat) : Prop :=
  ∃ s, p.segmentAt e.2 = some s ∧ s.position = e.1 ∧ 0 < s.size ∧ s.finish ≤ limit ∧
    e.2 ∈ p.stack s.size

/-- The segments that entries lead to. -/
def listed (p : Pool) (entries : List (Nat × Nat)) : List Segment :=
  entries.filterMap fun e => p.segmentAt e.2

theorem listed_entries (p : Pool) : p.listed p.byPosition.entries = p.segments := by
  rw [listed, segments, Index.values, List.filterMap_map]
  rfl

theorem mem_segments_iff_entry {s : Segment} :
    s ∈ p.segments ↔ ∃ e ∈ p.byPosition.entries, p.segmentAt e.2 = some s := by
  rw [← listed_entries, listed, List.mem_filterMap]

theorem flawIf_eq_nil_iff {φ : Type} {found : Bool} {flaw : φ} :
    flawIf found flaw = [] ↔ found = false := by
  cases found <;> simp [flawIf]

theorem orderFlaws_eq_nil_iff {previous : Option Segment} {s : Segment} :
    orderFlaws previous s = [] ↔ ∀ t ∈ previous, t.finish < s.position := by
  cases previous with
  | none => simp [orderFlaws]
  | some t =>
    simp only [orderFlaws, Option.mem_some_iff, forall_eq']
    split
    · simp; omega
    · split <;> simp <;> omega

theorem entryFlaws_eq_nil_iff {previous : Option Segment} {position slot : Nat} {s : Segment} :
    p.entryFlaws limit previous position slot s = [] ↔
      s.position = position ∧ 0 < s.size ∧ s.finish ≤ limit ∧
        (∀ t ∈ previous, t.finish < s.position) ∧ slot ∈ p.stack s.size := by
  simp only [entryFlaws, List.append_eq_nil_iff, flawIf_eq_nil_iff, orderFlaws_eq_nil_iff,
    bne_eq_false_iff_eq, beq_eq_false_iff_ne, decide_eq_false_iff_not, Nat.not_lt,
    Bool.not_eq_false', List.contains_iff_mem, Nat.pos_iff_ne_zero, and_assoc]

/-- Each entry is judged by itself and against the segment before it, so all of them together ask
for a chain of segments that never touch. -/
theorem positionFlaws_eq_nil_iff (previous : Option Segment) (entries : List (Nat × Nat)) :
    p.positionFlaws limit previous entries = [] ↔
      (∀ e ∈ entries, p.SoundEntry limit e) ∧
        (previous.toList ++ p.listed entries).IsChain fun s t => s.finish < t.position := by
  induction entries generalizing previous with
  | nil => cases previous <;> simp [positionFlaws, listed]
  | cons e rest ih =>
    obtain ⟨position, slot⟩ := e
    cases hslot : p.segmentAt slot with
    | none => simp [positionFlaws, SoundEntry, hslot]
    | some s =>
      have hlisted : p.listed ((position, slot) :: rest) = s :: p.listed rest := by
        simp [listed, hslot]
      have hsound : p.SoundEntry limit (position, slot) ↔
          s.position = position ∧ 0 < s.size ∧ s.finish ≤ limit ∧ slot ∈ p.stack s.size := by
        simp [SoundEntry, hslot]
      have hchain : (previous.toList ++ s :: p.listed rest).IsChain
            (fun s t => s.finish < t.position) ↔
          (∀ t ∈ previous, t.finish < s.position) ∧
            (s :: p.listed rest).IsChain fun s t => s.finish < t.position := by
        cases previous <;> simp [List.isChain_cons_cons]
      simp only [positionFlaws, hslot, List.append_eq_nil_iff, entryFlaws_eq_nil_iff, ih,
        List.forall_mem_cons, hsound, hlisted, hchain, Option.toList_some, List.singleton_append]
      tauto

/-- Neighbours that never touch are all apart, for a segment does not end before it starts. -/
theorem isChain_iff_apart (segments : List Segment) :
    segments.IsChain (fun s t => s.finish < t.position) ↔
      segments.Pairwise fun s t => s.finish < t.position := by
  have : IsTrans Segment fun s t => s.finish < t.position := by
    refine ⟨fun s t u hst htu => ?_⟩
    have : t.position ≤ t.finish := Nat.le_add_right _ _
    omega
  exact List.isChain_iff_pairwise

/-! ## The two indexes -/

/-- Segments at different keys are different, so no slot is listed twice. -/
theorem Placed.nodup (h : p.Placed) : p.byPosition.values.Nodup := by
  rw [Index.values, List.Nodup, List.pairwise_map]
  refine p.byPosition.sorted.imp_of_mem fun {a b} ha hb hlt heq => ?_
  obtain ⟨s, hs, hposition⟩ := h a ha
  obtain ⟨t, ht, hposition'⟩ := h b hb
  rw [heq, ht] at hs
  cases hs
  omega

theorem stack_of_mem_bySize {e : Nat × List Nat} (he : e ∈ p.bySize.entries) :
    p.stack e.1 = e.2 := by
  rw [stack, p.bySize.get?_eq_some_iff.2 he]
  rfl

theorem mem_stack_iff {slot size : Nat} :
    slot ∈ p.stack size ↔ ∃ e ∈ p.bySize.entries, e.1 = size ∧ slot ∈ e.2 := by
  constructor
  · intro hslot
    cases hget : p.bySize.get? size with
    | none =>
      rw [stack, hget] at hslot
      cases hslot
    | some l =>
      rw [stack, hget] at hslot
      exact ⟨(size, l), p.bySize.get?_eq_some_iff.1 hget, rfl, hslot⟩
  · rintro ⟨e, he, rfl, hslot⟩
    rw [stack_of_mem_bySize he]
    exact hslot

theorem mem_stacks_iff {slot : Nat} :
    slot ∈ p.bySize.values.flatten ↔ ∃ size, slot ∈ p.stack size := by
  simp only [List.mem_flatten, Index.values, List.mem_map, mem_stack_iff]
  constructor
  · rintro ⟨_, ⟨e, he, rfl⟩, hslot⟩
    exact ⟨e.1, e, he, rfl, hslot⟩
  · rintro ⟨_, e, he, rfl, hslot⟩
    exact ⟨e.2, ⟨e, he, rfl⟩, hslot⟩

theorem sizedCount_eq_length : p.sizedCount = p.bySize.values.flatten.length :=
  Offset.total_length _

/-- Slots that are distinct, all stacked, and as many as are stacked, are the stacked slots. -/
theorem stacks_perm (hnodup : p.byPosition.values.Nodup)
    (hstacked : ∀ slot ∈ p.byPosition.values, ∃ size, slot ∈ p.stack size)
    (hcount : p.sizedCount = p.count) : p.byPosition.values.Perm p.bySize.values.flatten := by
  have hsub : p.byPosition.values ⊆ p.bySize.values.flatten :=
    fun slot hslot => mem_stacks_iff.2 (hstacked slot hslot)
  have hlength : p.bySize.values.flatten.length ≤ p.byPosition.values.length := by
    rw [← sizedCount_eq_length, hcount, count, Index.size, Index.values, List.length_map]
  exact (List.subperm_of_subset hnodup hsub).perm_of_length_le hlength

theorem stackFlaws_eq_nil_iff {e : Nat × List Nat} :
    p.stackFlaws e = [] ↔
      e.2 ≠ [] ∧ ∀ slot ∈ e.2, ∃ s, p.segmentAt slot = some s ∧ s.size = e.1 := by
  simp only [stackFlaws, List.append_eq_nil_iff, flawIf_eq_nil_iff, List.flatMap_eq_nil_iff,
    bne_eq_false_iff_eq, Option.map_eq_some_iff, List.isEmpty_eq_false_iff]

theorem audit_eq_nil_iff_parts :
    p.audit limit = [] ↔
      p.positionFlaws limit none p.byPosition.entries = [] ∧ p.sizedCount = p.count ∧
        (∀ e ∈ p.bySize.entries, p.stackFlaws e = []) ∧ p.segmentSum = p.freeBytes := by
  simp only [audit, List.append_eq_nil_iff, flawIf_eq_nil_iff, bne_eq_false_iff_eq,
    List.flatMap_eq_nil_iff, and_assoc]

/-! ## Both directions -/

theorem consistent_of_audit (h : p.audit limit = []) : p.Consistent limit := by
  obtain ⟨hpositions, hcount, hstacks, hsum⟩ := audit_eq_nil_iff_parts.1 h
  obtain ⟨hentries, hchain⟩ := (positionFlaws_eq_nil_iff none _).1 hpositions
  rw [Option.toList_none, List.nil_append, listed_entries, isChain_iff_apart] at hchain
  have hplaced : p.Placed := fun e he =>
    have ⟨s, hs, hposition, _⟩ := hentries e he
    ⟨s, hs, hposition⟩
  have hsegment : ∀ s ∈ p.segments, 0 < s.size ∧ s.finish ≤ limit := by
    intro s hs
    obtain ⟨e, he, hslot⟩ := mem_segments_iff_entry.1 hs
    obtain ⟨t, ht, -, hsize, hfinish, -⟩ := hentries e he
    rw [hslot] at ht
    cases ht
    exact ⟨hsize, hfinish⟩
  have hstacked : ∀ slot ∈ p.byPosition.values, ∃ size, slot ∈ p.stack size := by
    intro slot hslot
    obtain ⟨e, he, rfl⟩ := List.mem_map.1 hslot
    obtain ⟨s, -, -, -, -, hstack⟩ := hentries e he
    exact ⟨s.size, hstack⟩
  have hperm := stacks_perm hplaced.nodup hstacked hcount
  refine ⟨hplaced, fun s hs => (hsegment s hs).1, hchain, fun s hs => (hsegment s hs).2, ?_, ?_,
    fun e he => (stackFlaws_eq_nil_iff.1 (hstacks e he)).1, hsum.symm⟩
  · intro slot hslot
    exact List.count_eq_one_of_mem (hperm.nodup_iff.1 hplaced.nodup) (hperm.mem_iff.1 hslot)
  · intro e he slot hslot
    refine ⟨hperm.mem_iff.2 (mem_stacks_iff.2 ⟨e.1, mem_stack_iff.2 ⟨e, he, rfl, hslot⟩⟩), ?_⟩
    exact (stackFlaws_eq_nil_iff.1 (hstacks e he)).2 slot hslot

namespace Consistent

/-- A listed slot stands in the stack of its segment's size. -/
theorem mem_stack (h : p.Consistent limit) {slot : Nat} {s : Segment}
    (hslot : slot ∈ p.byPosition.values) (hs : p.segmentAt slot = some s) :
    slot ∈ p.stack s.size := by
  have hmem : slot ∈ p.bySize.values.flatten := by
    rw [← List.count_pos_iff, h.once slot hslot]
    exact Nat.one_pos
  obtain ⟨size, hstack⟩ := mem_stacks_iff.1 hmem
  obtain ⟨e, he, rfl, hmem⟩ := mem_stack_iff.1 hstack
  obtain ⟨-, t, ht, hsize⟩ := h.sized e he slot hmem
  rw [hs] at ht
  cases ht
  rw [hsize]
  exact hstack

/-- Both indexes hold the same slots, each once. -/
theorem perm (h : p.Consistent limit) : p.byPosition.values.Perm p.bySize.values.flatten := by
  have hlisted : ∀ slot ∈ p.bySize.values.flatten, slot ∈ p.byPosition.values := by
    intro slot hslot
    obtain ⟨size, hstack⟩ := mem_stacks_iff.1 hslot
    obtain ⟨e, he, -, hmem⟩ := mem_stack_iff.1 hstack
    exact (h.sized e he slot hmem).1
  have hnodup : p.bySize.values.flatten.Nodup := by
    rw [List.nodup_iff_count_le_one]
    intro slot
    by_cases hslot : slot ∈ p.bySize.values.flatten
    · exact (h.once slot (hlisted slot hslot)).le
    · exact (List.count_eq_zero_of_not_mem hslot).trans_le (Nat.zero_le 1)
  rw [List.perm_ext_iff_of_nodup h.placed.nodup hnodup]
  refine fun slot => ⟨fun hslot => ?_, hlisted slot⟩
  rw [← List.count_pos_iff, h.once slot hslot]
  exact Nat.one_pos

theorem audit_eq_nil (h : p.Consistent limit) : p.audit limit = [] := by
  refine audit_eq_nil_iff_parts.2 ⟨?_, ?_, ?_, h.counted.symm⟩
  · rw [positionFlaws_eq_nil_iff, Option.toList_none, List.nil_append, listed_entries,
      isChain_iff_apart]
    refine ⟨fun e he => ?_, h.apart⟩
    obtain ⟨s, hs, hposition⟩ := h.placed e he
    have hmem : s ∈ p.segments := mem_segments_iff_entry.2 ⟨e, he, hs⟩
    exact ⟨s, hs, hposition, h.nonempty s hmem, h.within s hmem,
      h.mem_stack (List.mem_map.2 ⟨e, he, rfl⟩) hs⟩
  · rw [sizedCount_eq_length, ← h.perm.length_eq, Index.values, List.length_map]
    rfl
  · exact fun e he =>
      stackFlaws_eq_nil_iff.2 ⟨h.filled e he, fun slot hslot => (h.sized e he slot hslot).2⟩

end Consistent

/-- The audit of any pool, however it came about and whatever is wrong with it, is empty exactly if
every entry by position leads to a segment that starts there, these segments are non-empty, in
order, never touch and end at or before the limit, the stacks hold each of their slots once, under
the size of its segment, and no other slot, no stack is empty, and the counter is the sum of the
sizes. -/
theorem audit_decides (p : Pool) (limit : Nat) : p.audit limit = [] ↔ p.Consistent limit :=
  ⟨consistent_of_audit, Consistent.audit_eq_nil⟩

/-- A slot that stands twice in a stack, in the place of another, leaves both counts right. -/
example : audit ⟨[some ⟨0, 4⟩, some ⟨8, 4⟩], [], (Index.empty.insert 0 0).insert 8 1,
    Index.empty.insert 4 [0, 0], 8⟩ 16 = [.notInSizeIndex ⟨8, 4⟩] := by decide

end SpillStorage.Pool
