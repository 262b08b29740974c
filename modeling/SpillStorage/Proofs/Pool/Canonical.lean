import Mathlib.Data.Finset.Lattice.Fold
import Mathlib.Order.Lattice.Nat
import SpillStorage.Proofs.Pool.Checked

/-!
The free segments of a pool as the normal form of its set of free bytes.

What is proved:
  1. `mem_segments_iff_maximal`: the segments of a sound pool are the maximal intervals of its free
     bytes. Hence `segments_eq_of_bytes_eq`: pools with the same free bytes list the same segments;
     and `segments_eq_of_sorted`: they are the segments that those bytes fall into.
  2. `count_eq` and `largest_eq`: what a pool counts is what it lists.
  3. `Sound.run` and `bytes_releases`: runs of requests keep a pool sound, and ranges apart from
     each other may be released in any order.
  4. `canonical_free_set`: a pool is a set of free bytes, through every run.
-/

namespace SpillStorage

/-- The segment is a maximal interval of a set of bytes: it lies in the set, and the set has
neither the byte before it nor the one after. -/
structure Segment.Maximal (bytes : Finset Nat) (s : Segment) : Prop where
  nonempty : 0 < s.size
  subset : s.bytes ⊆ bytes
  before : s.position = 0 ∨ s.position - 1 ∉ bytes
  after : s.finish ∉ bytes

theorem Segment.Maximal.start_mem {bytes : Finset Nat} {s : Segment} (hs : s.Maximal bytes) :
    s.position ∈ s.bytes :=
  Segment.mem_bytes.2 ⟨Nat.le_refl _, Nat.lt_add_of_pos_right hs.nonempty⟩

/-- Maximal intervals with a byte in common are the same. -/
theorem Segment.Maximal.eq_of_mem {bytes : Finset Nat} {s t : Segment} (hs : s.Maximal bytes)
    (ht : t.Maximal bytes) {x : Nat} (hxs : x ∈ s.bytes) (hxt : x ∈ t.bytes) : s = t := by
  rw [Segment.mem_bytes] at hxs hxt
  have hfinish : ∀ {a b : Segment}, a.Maximal bytes → b.Maximal bytes →
      a.position ≤ x ∧ x < a.finish → b.position ≤ x ∧ x < b.finish → b.finish ≤ a.finish := by
    intro a b ha hb hxa hxb
    by_contra hlong
    exact ha.after (hb.subset (Segment.mem_bytes.2 ⟨by omega, by omega⟩))
  have hposition : ∀ {a b : Segment}, a.Maximal bytes → b.Maximal bytes →
      a.position ≤ x ∧ x < a.finish → b.position ≤ x ∧ x < b.finish →
        a.position ≤ b.position := by
    intro a b ha hb hxa hxb
    by_contra hearly
    rcases ha.before with hzero | hbefore
    · omega
    · exact hbefore (hb.subset (Segment.mem_bytes.2 ⟨by omega, by omega⟩))
  have hstart := Nat.le_antisymm (hposition hs ht hxs hxt) (hposition ht hs hxt hxs)
  have hend := Nat.le_antisymm (hfinish ht hs hxt hxs) (hfinish hs ht hxs hxt)
  obtain ⟨position, size⟩ := s
  obtain ⟨position', size'⟩ := t
  simp only [Segment.finish] at hstart hend
  rw [Segment.mk.injEq]
  omega

namespace Pool

/-! ## Segments and bytes -/

theorem maximal_of_mem {p : Pool} (h : Sound p) {s : Segment} (hs : s ∈ p.segments) :
    s.Maximal p.bytes := by
  refine ⟨nonempty_of_mem h hs, segment_bytes_subset hs, ?_, finish_not_mem_bytes h hs⟩
  by_cases hzero : s.position = 0
  · exact .inl hzero
  · exact .inr (before_not_mem_bytes h hs hzero)

/-- A maximal interval is the segment that holds its first byte. -/
theorem mem_segments_of_maximal {p : Pool} (h : Sound p) {s : Segment}
    (hs : s.Maximal p.bytes) : s ∈ p.segments := by
  have hstart := hs.start_mem
  obtain ⟨t, ht, hx⟩ := mem_bytes.1 (hs.subset hstart)
  rw [hs.eq_of_mem (maximal_of_mem h ht) hstart (Segment.mem_bytes.2 hx)]
  exact ht

/-- The free segments are the maximal intervals of the free bytes. -/
theorem mem_segments_iff_maximal {p : Pool} (h : Sound p) (s : Segment) :
    s ∈ p.segments ↔ s.Maximal p.bytes := ⟨maximal_of_mem h, mem_segments_of_maximal h⟩

/-- Lists of segments in order, none touching the next, are equal if they have the same members. -/
theorem eq_of_sorted {l m : List Segment} (hl : l.Pairwise fun s t => s.finish < t.position)
    (hm : m.Pairwise fun s t => s.finish < t.position) (hmem : ∀ s, s ∈ l ↔ s ∈ m) : l = m := by
  have irreflexive : Std.Irrefl fun s t : Segment => s.finish < t.position :=
    ⟨fun s => Nat.not_lt.2 (Nat.le_add_right _ _)⟩
  have antisymmetric : Std.Antisymm fun s t : Segment => s.finish < t.position := by
    refine ⟨fun s t hst hts => ?_⟩
    unfold Segment.finish at hst hts
    omega
  exact List.Pairwise.eq_of_mem_iff hl hm hmem

/-- The free bytes determine the list of free segments. -/
theorem segments_eq_of_bytes_eq {p q : Pool} (hp : Sound p) (hq : Sound q)
    (hbytes : p.bytes = q.bytes) : p.segments = q.segments := by
  apply eq_of_sorted hp.segments_sorted hq.segments_sorted
  intro s
  rw [mem_segments_iff_maximal hp, mem_segments_iff_maximal hq, hbytes]

/-- Segments in order, none touching the next, are maximal intervals of the bytes that they make
up. -/
theorem maximal_of_sorted {l : List Segment} {bytes : Finset Nat}
    (hsorted : l.Pairwise fun s t => s.finish < t.position) (hpos : ∀ s ∈ l, 0 < s.size)
    (hbytes : ∀ x, x ∈ bytes ↔ ∃ s ∈ l, x ∈ s.bytes) {s : Segment} (hs : s ∈ l) :
    s.Maximal bytes := by
  have hapart : ∀ t ∈ l, t ≠ s → t.finish < s.position ∨ s.finish < t.position := by
    intro t ht hne
    have hsymm : Std.Symm Segment.Apart := ⟨fun _ _ => Segment.Apart.symm⟩
    exact (hsorted.imp (S := Segment.Apart) .inl).forall ht hs hne
  refine ⟨hpos s hs, fun x hx => (hbytes x).2 ⟨s, hs, hx⟩, ?_, ?_⟩
  · by_cases hzero : s.position = 0
    · exact .inl hzero
    · refine .inr fun hmem => ?_
      obtain ⟨t, ht, hx⟩ := (hbytes _).1 hmem
      rw [Segment.mem_bytes] at hx
      have hne : t ≠ s := by
        rintro rfl
        omega
      have := hapart t ht hne
      unfold Segment.finish at *
      omega
  · intro hmem
    obtain ⟨t, ht, hx⟩ := (hbytes _).1 hmem
    rw [Segment.mem_bytes] at hx
    have hne : t ≠ s := by
      rintro rfl
      omega
    have := hapart t ht hne
    unfold Segment.finish at *
    omega

/-- A pool lists the segments that its free bytes fall into. -/
theorem segments_eq_of_sorted {p : Pool} (h : Sound p) {l : List Segment}
    (hsorted : l.Pairwise fun s t => s.finish < t.position) (hpos : ∀ s ∈ l, 0 < s.size)
    (hbytes : ∀ x, x ∈ p.bytes ↔ ∃ s ∈ l, x ∈ s.bytes) : p.segments = l := by
  apply eq_of_sorted h.segments_sorted hsorted
  intro s
  rw [mem_segments_iff_maximal h]
  refine ⟨fun hs => ?_, maximal_of_sorted hsorted hpos hbytes⟩
  obtain ⟨t, ht, hx⟩ := (hbytes _).1 (hs.subset hs.start_mem)
  rw [hs.eq_of_mem (maximal_of_sorted hsorted hpos hbytes ht) hs.start_mem hx]
  exact ht

/-! ## Counts -/

theorem count_eq {p : Pool} (h : Sound p) : p.count = p.segments.length := by
  have hoccupied : ∀ slot ∈ p.byPosition.values, (p.segmentAt slot).isSome := by
    intro slot hslot
    obtain ⟨e, he, rfl⟩ := List.mem_map.1 hslot
    obtain ⟨s, hs, -⟩ := (h.position_iff e.1 e.2).1 he
    rw [hs]
    rfl
  show p.byPosition.entries.length = (p.byPosition.values.filterMap p.segmentAt).length
  rw [List.filterMap_length_eq_length.2 hoccupied, Index.values, List.length_map]

/-- A size in the index is the size of a free segment. -/
theorem exists_segment_of_size {p : Pool} (h : Sound p) {size : Nat} {slots : List Nat}
    (hmem : (size, slots) ∈ p.bySize.entries) : ∃ s ∈ p.segments, s.size = size := by
  have hget : p.bySize.get? size = some slots := p.bySize.get?_eq_some_iff.2 hmem
  cases slots with
  | nil => exact absurd hget (h.stack_ne_nil size)
  | cons slot rest =>
    have hslot : slot ∈ p.stack size := by
      rw [stack, hget]
      exact List.mem_cons_self
    obtain ⟨s, hs, hsize⟩ := (h.stack_iff size slot).1 hslot
    exact ⟨s, (mem_segments h.toIndexed).2 ⟨slot, hs⟩, hsize⟩

/-- The size of a free segment is in the index. -/
theorem exists_stack_of_mem {p : Pool} (h : Sound p) {s : Segment} (hs : s ∈ p.segments) :
    ∃ slots, (s.size, slots) ∈ p.bySize.entries := by
  obtain ⟨slot, hslot⟩ := (mem_segments h.toIndexed).1 hs
  have hmem : slot ∈ p.stack s.size := (h.stack_iff _ _).2 ⟨s, hslot, rfl⟩
  cases hget : p.bySize.get? s.size with
  | none =>
    rw [stack, hget] at hmem
    cases hmem
  | some slots => exact ⟨slots, p.bySize.get?_eq_some_iff.1 hget⟩

/-- The largest free segment, 0 if there is none. -/
theorem largest_eq {p : Pool} (h : Sound p) : p.largest = p.segments.toFinset.sup Segment.size := by
  unfold largest
  cases hlast : p.bySize.lastKey? with
  | none =>
    have hnone : p.segments.toFinset = ∅ := by
      rw [List.toFinset_eq_empty_iff, List.eq_nil_iff_forall_not_mem]
      intro s hs
      obtain ⟨slots, hslots⟩ := exists_stack_of_mem h hs
      rw [p.bySize.lastKey?_none hlast] at hslots
      cases hslots
    rw [hnone]
    rfl
  | some size =>
    obtain ⟨⟨slots, hmem⟩, hmax⟩ := p.bySize.lastKey?_some hlast
    obtain ⟨s, hs, rfl⟩ := exists_segment_of_size h hmem
    apply Nat.le_antisymm
    · exact Finset.le_sup (f := Segment.size) (List.mem_toFinset.2 hs)
    · apply Finset.sup_le
      intro t ht
      obtain ⟨slots', hslots'⟩ := exists_stack_of_mem h (List.mem_toFinset.1 ht)
      exact hmax _ hslots'

/-! ## Runs -/

/-- What a pool can be asked. -/
inductive Request where
  | release (offset size : Nat)
  | allocate (size : Nat)
  | take (offset size : Nat)

/-- The pool after a request, met or not. -/
def serve (p : Pool) : Request → Pool
  | .release offset size =>
    match p.release offset size with
    | .ok q => q
    | .error _ => p
  | .allocate size =>
    match p.allocate size with
    | some (_, q) => q
    | none => p
  | .take offset size =>
    match p.take offset size with
    | .ok q => q
    | .error _ => p

def run (p : Pool) (requests : List Request) : Pool := requests.foldl serve p

theorem Sound.serve {p : Pool} (h : Sound p) (request : Request) : Sound (p.serve request) := by
  cases request with
  | release offset size =>
    simp only [Pool.serve]
    cases hq : p.release offset size with
    | ok q => exact (release_ok h hq).1
    | error f => exact h
  | allocate size =>
    simp only [Pool.serve]
    cases hq : p.allocate size with
    | some found => exact (allocate_some h hq).2.2.1
    | none => exact h
  | take offset size =>
    simp only [Pool.serve]
    cases hq : p.take offset size with
    | ok q => exact (take_ok h hq).1
    | error f => exact h

theorem Sound.run {p : Pool} (h : Sound p) (requests : List Request) : Sound (p.run requests) := by
  induction requests generalizing p with
  | nil => exact h
  | cons request rest ih => exact ih (h.serve request)

/-- Releases the ranges one after the other. -/
def releases (ranges : List Segment) : List Request :=
  ranges.map fun s => .release s.position s.size

/-- Ranges apart from each other and in use are all taken back. -/
theorem bytes_releases {p : Pool} (h : Sound p) {ranges : List Segment}
    (hranges : ∀ s ∈ ranges, 0 < s.size ∧ s.finish < Offset.bound)
    (hapart : ranges.Pairwise fun s t => Disjoint s.bytes t.bytes)
    (hused : ∀ s ∈ ranges, Disjoint s.bytes p.bytes) :
    (p.run (releases ranges)).bytes = p.bytes ∪ ranges.toFinset.biUnion Segment.bytes := by
  induction ranges generalizing p with
  | nil => simp [releases, run]
  | cons s rest ih =>
    obtain ⟨hsize, hbound⟩ := hranges s List.mem_cons_self
    obtain ⟨hfirst, hrest⟩ := List.pairwise_cons.1 hapart
    obtain ⟨q, hq⟩ := (release_iff h s.position s.size).2
      ⟨hsize, hbound, hused s List.mem_cons_self⟩
    obtain ⟨hqs, hbytes⟩ := release_ok h hq
    have hserve : p.serve (.release s.position s.size) = q := by simp only [serve, hq]
    have hrun : p.run (releases (s :: rest)) = q.run (releases rest) := by
      rw [← hserve]
      rfl
    have hbytes' : q.bytes = p.bytes ∪ s.bytes := hbytes
    have hused' : ∀ t ∈ rest, Disjoint t.bytes q.bytes := by
      intro t ht
      rw [hbytes', Finset.disjoint_union_right]
      exact ⟨hused t (List.mem_cons_of_mem _ ht), (hfirst t ht).symm⟩
    rw [hrun, ih hqs (fun t ht => hranges t (List.mem_cons_of_mem _ ht)) hrest hused', hbytes',
      List.toFinset_cons, Finset.biUnion_insert, Finset.union_assoc]

/-- The order of the releases leaves no trace in the list of free segments. -/
theorem segments_releases_perm {ranges ranges' : List Segment} (hperm : ranges.Perm ranges')
    (hranges : ∀ s ∈ ranges, 0 < s.size ∧ s.finish < Offset.bound)
    (hapart : ranges.Pairwise fun s t => Disjoint s.bytes t.bytes) :
    (empty.run (releases ranges)).segments = (empty.run (releases ranges')).segments := by
  have hapart' : ranges'.Pairwise fun s t => Disjoint s.bytes t.bytes :=
    (hperm.pairwise_iff fun hst => hst.symm).1 hapart
  -- nothing is free to begin with
  have hfirst : ∀ s : Segment, Disjoint s.bytes empty.bytes :=
    fun s => Finset.disjoint_empty_right s.bytes
  apply segments_eq_of_bytes_eq (sound_empty.run _) (sound_empty.run _)
  rw [bytes_releases sound_empty hranges hapart fun s _ => hfirst s,
    bytes_releases sound_empty (fun s hs => hranges s (hperm.mem_iff.2 hs)) hapart' fun s _ =>
      hfirst s,
    List.toFinset_eq_of_perm _ _ hperm]

/-- A pool is a set of free bytes in normal form. After every run of requests from the empty pool,
met or not: the free segments are the maximal intervals of the free bytes, in order; the counters
count them; exactly the ranges that are not empty, end in the range of offsets and are in use can
be released, and exactly the free ranges taken out; an allocation takes the head of a free segment;
each changes the free bytes by the range alone, and a request that is refused changes nothing. No
sum or difference in any of the three leaves the range of offsets. What a pool lists and counts
depends on its free bytes only, so not on the order in which ranges apart from each other were
released. -/
theorem canonical_free_set (requests : List Request) :
    let p := empty.run requests
    (∀ s, s ∈ p.segments ↔ s.Maximal p.bytes) ∧
    (p.segments.Pairwise fun s t => s.finish < t.position) ∧
    p.freeBytes = p.bytes.card ∧ p.count = p.segments.length ∧
    p.largest = p.segments.toFinset.sup Segment.size ∧
    (∀ offset size,
      ((∃ q, p.release offset size = .ok q) ↔ 0 < size ∧ offset + size ≤ Offset.greatest ∧
        Disjoint (Finset.Ico offset (offset + size)) p.bytes) ∧
      (∀ q, p.release offset size = .ok q →
        q.bytes = p.bytes ∪ Finset.Ico offset (offset + size)) ∧
      ∀ f, p.release offset size = .error f → p.serve (.release offset size) = p) ∧
    (∀ offset size,
      ((∃ q, p.take offset size = .ok q) ↔
        size = 0 ∨ Finset.Ico offset (offset + size) ⊆ p.bytes) ∧
      (∀ q, p.take offset size = .ok q →
        q.bytes = p.bytes \ Finset.Ico offset (offset + size)) ∧
      ∀ f, p.take offset size = .error f → p.serve (.take offset size) = p) ∧
    (∀ size,
      (∀ offset q, p.allocate size = some (offset, q) →
        Finset.Ico offset (offset + size) ⊆ p.bytes ∧ (∃ s ∈ p.segments, s.position = offset) ∧
          q.bytes = p.bytes \ Finset.Ico offset (offset + size)) ∧
      (p.allocate size = none → p.serve (.allocate size) = p)) ∧
    (∀ offset size, p.releaseChecked offset size = some (p.release offset size) ∧
      p.takeChecked offset size = some (p.take offset size) ∧
      p.allocateChecked size = some (p.allocate size)) ∧
    (∀ others, (empty.run others).bytes = p.bytes →
      (empty.run others).segments = p.segments ∧ (empty.run others).freeBytes = p.freeBytes ∧
        (empty.run others).count = p.count ∧ (empty.run others).largest = p.largest) ∧
    ∀ ranges ranges' : List Segment, ranges.Perm ranges' →
      (∀ s ∈ ranges, 0 < s.size ∧ s.finish < Offset.bound) →
      (ranges.Pairwise fun s t => Disjoint s.bytes t.bytes) →
        (empty.run (releases ranges)).segments = (empty.run (releases ranges')).segments := by
  intro p
  have hp : p.Sound := sound_empty.run requests
  refine ⟨mem_segments_iff_maximal hp, hp.segments_sorted, hp.card_bytes.symm, count_eq hp,
    largest_eq hp, fun offset size => ⟨?_, ?_, ?_⟩, fun offset size => ⟨?_, ?_, ?_⟩,
    fun size => ⟨?_, ?_⟩, fun offset size => ?_, ?_, fun _ _ => segments_releases_perm⟩
  · have hgreatest : offset + size ≤ Offset.greatest ↔ offset + size < Offset.bound := by
      have : 0 < Offset.bound := by decide
      unfold Offset.greatest
      omega
    rw [hgreatest]
    exact release_iff hp offset size
  · intro q hq
    exact (release_ok hp hq).2
  · intro f hf
    simp only [serve, hf]
  · rw [take_iff hp]
    constructor
    · exact .inr
    · rintro (rfl | hsub)
      · simp
      · exact hsub
  · intro q hq
    exact (take_ok hp hq).2
  · intro f hf
    simp only [serve, hf]
  · intro offset q hq
    obtain ⟨-, hsub, -, hbytes⟩ := allocate_some hp hq
    obtain ⟨-, slot, s, hs, hposition, -⟩ := allocate_eq_cut hp hq
    exact ⟨hsub, ⟨s, (mem_segments hp.toIndexed).2 ⟨slot, hs⟩, hposition⟩, hbytes⟩
  · intro hnone
    simp only [serve, hnone]
  · exact ⟨releaseChecked_eq hp offset size, takeChecked_eq hp offset size,
      allocateChecked_eq hp size⟩
  · intro others hbytes
    have ho : (empty.run others).Sound := sound_empty.run others
    have hsegments := segments_eq_of_bytes_eq ho hp hbytes
    refine ⟨hsegments, ?_, ?_, ?_⟩
    · rw [← ho.card_bytes, ← hp.card_bytes, hbytes]
    · rw [count_eq ho, count_eq hp, hsegments]
    · rw [largest_eq ho, largest_eq hp, hsegments]

/-- Two ranges next to each other and one apart, released in either order. -/
example : (empty.run (releases [⟨8, 4⟩, ⟨0, 8⟩, ⟨20, 2⟩])).segments = [⟨0, 12⟩, ⟨20, 2⟩] ∧
    (empty.run (releases [⟨20, 2⟩, ⟨0, 8⟩, ⟨8, 4⟩])).segments = [⟨0, 12⟩, ⟨20, 2⟩] := by decide

end Pool

end SpillStorage
