import Mathlib.Order.Interval.Finset.Nat
import SpillStorage.Proofs.Pool.Representation

/-!
A pool as the set of bytes that it holds free.

What is proved, for every sound pool:
  1. `card_bytes`: the counter is the number of free bytes.
  2. `allocate_some`: what is allocated was free, and is all that the set loses.
  3. `release_ok` and `release_iff`: a range is taken back exactly if it is not empty, ends in the
     range of offsets and was in use, and it is all that the set gains.
  4. `take_ok` and `take_iff`: exactly a free range can be taken out, and is all that the set loses.

Release looks at the two nearest segments only. That this is enough rests on the segments being
apart: `before_cases` and `from_cases` say how far away all others are.
-/

namespace SpillStorage

namespace Segment

/-- The bytes of a segment. -/
def bytes (s : Segment) : Finset Nat := Finset.Ico s.position s.finish

theorem mem_bytes {s : Segment} {x : Nat} : x ∈ s.bytes ↔ s.position ≤ x ∧ x < s.finish :=
  Finset.mem_Ico

theorem card_bytes (s : Segment) : s.bytes.card = s.size := by
  rw [bytes, Nat.card_Ico, finish, Nat.add_sub_cancel_left]

end Segment

namespace Pool

/-- The free bytes. -/
def bytes (p : Pool) : Finset Nat := p.segments.toFinset.biUnion Segment.bytes

theorem mem_bytes {p : Pool} {x : Nat} :
    x ∈ p.bytes ↔ ∃ s ∈ p.segments, s.position ≤ x ∧ x < s.finish := by
  simp [bytes, Segment.mem_bytes]

/-- Segments listed in order hold as many bytes as their sizes add up to. -/
theorem card_biUnion_bytes {l : List Segment} (h : l.Pairwise fun s t => s.finish < t.position) :
    (l.toFinset.biUnion Segment.bytes).card = Offset.total (l.map Segment.size) := by
  induction h with
  | nil => rfl
  | @cons s rest hs _ ih =>
    have hdisjoint : Disjoint s.bytes (rest.toFinset.biUnion Segment.bytes) := by
      apply Finset.disjoint_left.2
      intro x hx hx'
      obtain ⟨t, ht, hxt⟩ := Finset.mem_biUnion.1 hx'
      have := hs t (List.mem_toFinset.1 ht)
      rw [Segment.mem_bytes] at hx hxt
      omega
    rw [List.toFinset_cons, Finset.biUnion_insert, Finset.card_union_of_disjoint hdisjoint,
      Segment.card_bytes, ih, List.map_cons, Offset.total]

theorem Sound.card_bytes {p : Pool} (h : Sound p) : p.bytes.card = p.freeBytes := by
  rw [h.counter]
  exact card_biUnion_bytes h.segments_sorted

theorem segment_bytes_subset {p : Pool} {s : Segment} (hs : s ∈ p.segments) :
    s.bytes ⊆ p.bytes := by
  intro x hx
  exact mem_bytes.2 ⟨s, hs, Segment.mem_bytes.1 hx⟩

/-- The byte past the end of a free segment is in use. -/
theorem finish_not_mem_bytes {p : Pool} (h : Sound p) {s : Segment} (hs : s ∈ p.segments) :
    s.finish ∉ p.bytes := by
  intro hmem
  obtain ⟨t, ht, hx⟩ := mem_bytes.1 hmem
  obtain ⟨i, hi⟩ := (mem_segments h.toIndexed).1 hs
  obtain ⟨j, hj⟩ := (mem_segments h.toIndexed).1 ht
  by_cases hij : i = j
  · subst hij
    rw [hi] at hj
    cases hj
    omega
  · have := h.apart _ _ _ _ hi hj hij
    unfold Segment.Apart at this
    unfold Segment.finish at this hx
    omega

theorem bytes_insert {p : Pool} {segment : Segment} (h : Sound p) (hi : Sound (p.insert segment)) :
    (p.insert segment).bytes = p.bytes ∪ segment.bytes := by
  ext x
  simp only [Finset.mem_union, mem_bytes, Segment.mem_bytes,
    mem_segments_insert h.toIndexed hi.toIndexed]
  constructor
  · rintro ⟨s, rfl | hs, hx⟩
    · exact .inr hx
    · exact .inl ⟨s, hs, hx⟩
  · rintro (⟨s, hs, hx⟩ | hx)
    · exact ⟨s, .inr hs, hx⟩
    · exact ⟨segment, .inl rfl, hx⟩

theorem bytes_remove {p : Pool} (h : Sound p) {slot : Nat} {s : Segment}
    (hs : p.segmentAt slot = some s) : (p.remove slot).bytes = p.bytes \ s.bytes := by
  ext x
  simp only [Finset.mem_sdiff, mem_bytes, Segment.mem_bytes, mem_segments_remove h.toIndexed hs]
  constructor
  · rintro ⟨t, ⟨ht, hne⟩, hx⟩
    refine ⟨⟨t, ht, hx⟩, ?_⟩
    intro hxs
    obtain ⟨j, hj⟩ := (mem_segments h.toIndexed).1 ht
    have hij : j ≠ slot := by
      rintro rfl
      rw [hs] at hj
      exact hne (Option.some.inj hj).symm
    have := h.apart _ _ _ _ hj hs hij
    unfold Segment.Apart at this
    omega
  · rintro ⟨⟨t, ht, hx⟩, hxs⟩
    refine ⟨t, ⟨ht, ?_⟩, hx⟩
    rintro rfl
    exact hxs hx

/-- What is left after a segment is taken out is apart from it. -/
theorem apart_of_remove {p : Pool} (h : Sound p) {slot : Nat} {s : Segment}
    (hs : p.segmentAt slot = some s) : ∀ t ∈ (p.remove slot).segments, t.Apart s := by
  intro t ht
  obtain ⟨ht, hne⟩ := (mem_segments_remove h.toIndexed hs).1 ht
  obtain ⟨j, hj⟩ := (mem_segments h.toIndexed).1 ht
  apply h.apart _ _ _ _ hj hs
  rintro rfl
  rw [hs] at hj
  exact hne (Option.some.inj hj).symm

/-! ## Carving a segment -/

/-- The pool with `[start, finish)` free as well, if that is not empty. -/
def fill (p : Pool) (start finish : Nat) : Pool :=
  if start < finish then p.insert ⟨start, finish - start⟩ else p

theorem fill_spec {p : Pool} (h : Sound p) (start finish : Nat) (hbound : finish < Offset.bound)
    (hapart : ∀ t ∈ p.segments, t.finish < start ∨ finish < t.position) :
    Sound (p.fill start finish) ∧ (p.fill start finish).bytes = p.bytes ∪ Finset.Ico start finish ∧
      ∀ t ∈ (p.fill start finish).segments,
        t ∈ p.segments ∨ t.position = start ∧ t.finish = finish := by
  unfold fill
  split
  · next hlt =>
    have hfinish : (⟨start, finish - start⟩ : Segment).finish = finish := by
      simp only [Segment.finish]
      omega
    have hi : Sound (p.insert ⟨start, finish - start⟩) := by
      apply h.insert (by simp only; omega) (by omega)
      intro t ht
      rw [Segment.Apart, hfinish]
      exact hapart t ht
    refine ⟨hi, by rw [bytes_insert h hi, Segment.bytes, hfinish], ?_⟩
    intro t ht
    rcases (mem_segments_insert h.toIndexed hi.toIndexed).1 ht with rfl | ht
    · exact .inr ⟨rfl, hfinish⟩
    · exact .inl ht
  · next hge =>
    rw [Finset.Ico_eq_empty hge, Finset.union_empty]
    exact ⟨h, rfl, fun t ht => .inl ht⟩

/-- The pool after `[offset, offset + size)` is cut out of the segment in a slot; what lies before
and after in the segment stays free. -/
def cut (p : Pool) (slot : Nat) (s : Segment) (offset size : Nat) : Pool :=
  ((p.remove slot).fill s.position offset).fill (offset + size) s.finish

/-- The head of a segment that was taken out can be put back. -/
theorem head_spec {p : Pool} (h : Sound p) {slot : Nat} {s : Segment}
    (hs : p.segmentAt slot = some s) (offset : Nat) (hle : offset ≤ s.finish) :
    Sound ((p.remove slot).fill s.position offset) ∧
      ((p.remove slot).fill s.position offset).bytes =
        (p.remove slot).bytes ∪ Finset.Ico s.position offset ∧
      ∀ t ∈ ((p.remove slot).fill s.position offset).segments,
        t ∈ (p.remove slot).segments ∨ t.position = s.position ∧ t.finish = offset := by
  have hbound := h.bounded _ _ hs
  apply fill_spec (h.remove slot) s.position offset (by omega)
  intro t ht
  rcases apart_of_remove h hs t ht with hlt | hlt
  · exact .inl hlt
  · exact .inr (by omega)

theorem cut_spec {p : Pool} (h : Sound p) {slot : Nat} {s : Segment}
    (hs : p.segmentAt slot = some s) {offset size : Nat} (hsize : 0 < size)
    (hposition : s.position ≤ offset) (hfinish : offset + size ≤ s.finish) :
    Sound (p.cut slot s offset size) ∧
      (p.cut slot s offset size).bytes = p.bytes \ Finset.Ico offset (offset + size) := by
  have hbound := h.bounded _ _ hs
  have hapart := apart_of_remove h hs
  have hsub : s.bytes ⊆ p.bytes :=
    segment_bytes_subset ((mem_segments h.toIndexed).2 ⟨slot, hs⟩)
  obtain ⟨hhead, hheadBytes, hheadMem⟩ := head_spec h hs offset (by omega)
  obtain ⟨htail, htailBytes, -⟩ := fill_spec hhead (offset + size) s.finish
    hbound (by
      intro t ht
      rcases hheadMem t ht with ht | ⟨-, hend⟩
      · rcases hapart t ht with hlt | hlt
        · exact .inl (by omega)
        · exact .inr hlt
      · exact .inl (by omega))
  refine ⟨htail, ?_⟩
  rw [cut, htailBytes, hheadBytes, bytes_remove h hs]
  ext x
  have hx : s.position ≤ x → x < s.finish → x ∈ p.bytes := fun h₁ h₂ =>
    hsub (Segment.mem_bytes.2 ⟨h₁, h₂⟩)
  simp only [Finset.mem_union, Finset.mem_sdiff, Finset.mem_Ico, Segment.mem_bytes]
  constructor
  · rintro ((⟨hfree, hout⟩ | hin) | hin)
    · exact ⟨hfree, by omega⟩
    · exact ⟨hx (by omega) (by omega), by omega⟩
    · exact ⟨hx (by omega) (by omega), by omega⟩
  · rintro ⟨hfree, hout⟩
    by_cases hin : s.position ≤ x ∧ x < s.finish
    · by_cases hlt : x < offset
      · exact .inl (.inr ⟨hin.1, hlt⟩)
      · exact .inr ⟨by omega, hin.2⟩
    · exact .inl (.inl ⟨hfree, hin⟩)

/-! ## Allocation -/

/-- The best fit is the top of the stack of the least size that fits. -/
theorem bestFit_top {p : Pool} {size slot : Nat} (hfit : p.bestFit size = some slot) :
    ∃ least, size ≤ least ∧ (p.stack least).head? = some slot ∧
      ∀ e ∈ p.bySize.entries, size ≤ e.1 → least ≤ e.1 := by
  unfold bestFit at hfit
  obtain ⟨entry, hentry, hhead⟩ := Option.bind_eq_some_iff.1 hfit
  obtain ⟨hmem, hle, hleast⟩ := p.bySize.firstFrom_some hentry
  have hget : p.bySize.get? entry.1 = some entry.2 := p.bySize.get?_eq_some_iff.2 hmem
  have hstack : p.stack entry.1 = entry.2 := by
    rw [stack, hget]
    rfl
  exact ⟨entry.1, hle, by rw [hstack, hhead], hleast⟩

/-- The best fit is a free segment that is large enough. -/
theorem bestFit_some {p : Pool} (h : Sound p) {size slot : Nat}
    (hfit : p.bestFit size = some slot) :
    ∃ s, p.segmentAt slot = some s ∧ size ≤ s.size := by
  obtain ⟨least, hle, hhead, -⟩ := bestFit_top hfit
  obtain ⟨s, hs, hsize⟩ := (h.stack_iff _ _).1 (List.mem_of_mem_head? hhead)
  exact ⟨s, hs, by omega⟩

/-- An allocation cuts the head off the best fit. -/
theorem allocate_eq_bestFit {p q : Pool} {size offset : Nat}
    (ha : p.allocate size = some (offset, q)) :
    0 < size ∧ ∃ slot s, p.bestFit size = some slot ∧ p.segmentAt slot = some s ∧
      s.position = offset ∧ q = p.cut slot s offset size := by
  unfold allocate at ha
  split at ha
  · cases ha
  · next hsize =>
    obtain ⟨slot, hfit, ha⟩ := Option.bind_eq_some_iff.1 ha
    obtain ⟨s, hs, ha⟩ := Option.bind_eq_some_iff.1 ha
    simp only [Option.pure_def, Option.some.injEq, Prod.mk.injEq] at ha
    obtain ⟨rfl, rfl⟩ := ha
    refine ⟨Nat.pos_of_ne_zero hsize, slot, s, hfit, hs, rfl, ?_⟩
    -- nothing lies before the head of the segment
    simp only [cut, fill, Segment.finish, Nat.lt_irrefl, if_false, Nat.add_lt_add_iff_left,
      Nat.add_sub_add_left]

/-- An allocation cuts the head off a free segment that is large enough. -/
theorem allocate_eq_cut {p q : Pool} (h : Sound p) {size offset : Nat}
    (ha : p.allocate size = some (offset, q)) :
    0 < size ∧ ∃ slot s, p.segmentAt slot = some s ∧ s.position = offset ∧ size ≤ s.size ∧
      q = p.cut slot s offset size := by
  obtain ⟨hsize, slot, s, hfit, hs, hposition, hq⟩ := allocate_eq_bestFit ha
  obtain ⟨t, ht, hle⟩ := bestFit_some h hfit
  rw [hs] at ht
  cases ht
  exact ⟨hsize, slot, s, hs, hposition, hle, hq⟩

/-- What allocation hands out was free, and is no longer. -/
theorem allocate_some {p q : Pool} (h : Sound p) {size offset : Nat}
    (ha : p.allocate size = some (offset, q)) :
    0 < size ∧ Finset.Ico offset (offset + size) ⊆ p.bytes ∧ Sound q ∧
      q.bytes = p.bytes \ Finset.Ico offset (offset + size) := by
  obtain ⟨hsize, slot, s, hs, rfl, hle, rfl⟩ := allocate_eq_cut h ha
  have hfinish : s.position + size ≤ s.finish := Nat.add_le_add_left hle _
  have hsub : Finset.Ico s.position (s.position + size) ⊆ s.bytes :=
    Finset.Ico_subset_Ico_right hfinish
  obtain ⟨hq, hbytes⟩ := cut_spec h hs hsize (Nat.le_refl _) hfinish
  exact ⟨hsize, hsub.trans (segment_bytes_subset ((mem_segments h.toIndexed).2 ⟨slot, hs⟩)),
    hq, hbytes⟩

/-! ## Neighbours -/

/-- A position entry stands for a free segment that starts there. -/
theorem occupied_of_mem {p : Pool} (h : Sound p) {e : Nat × Nat} (he : e ∈ p.byPosition.entries) :
    ∃ s, p.occupied e = some (e.2, s) ∧ p.segmentAt e.2 = some s ∧ s.position = e.1 := by
  obtain ⟨s, hs, hposition⟩ := (h.position_iff e.1 e.2).1 he
  exact ⟨s, by rw [occupied, hs]; rfl, hs, hposition⟩

theorem entry_of_mem_segments {p : Pool} (h : Sound p) {t : Segment} (ht : t ∈ p.segments) :
    ∃ slot, (t.position, slot) ∈ p.byPosition.entries := by
  obtain ⟨slot, hslot⟩ := (mem_segments h.toIndexed).1 ht
  exact ⟨slot, (h.position_iff _ _).2 ⟨t, hslot, rfl⟩⟩

/-- Free segments in order: the one that starts first ends before the other starts. -/
theorem finish_lt_of_position_lt {p : Pool} (h : Sound p) {s t : Segment} (hs : s ∈ p.segments)
    (ht : t ∈ p.segments) (hlt : s.position < t.position) : s.finish < t.position := by
  obtain ⟨i, hi⟩ := (mem_segments h.toIndexed).1 hs
  obtain ⟨j, hj⟩ := (mem_segments h.toIndexed).1 ht
  have hij : i ≠ j := by
    rintro rfl
    rw [hi] at hj
    cases hj
    omega
  have := h.apart _ _ _ _ hi hj hij
  unfold Segment.Apart Segment.finish at *
  omega

theorem eq_or_finish_lt {p : Pool} (h : Sound p) {s t : Segment} (hs : s ∈ p.segments)
    (ht : t ∈ p.segments) (hle : s.position ≤ t.position) : s = t ∨ s.finish < t.position := by
  rcases Nat.eq_or_lt_of_le hle with heq | hlt
  · exact .inl (h.toIndexed.eq_of_position_eq hs ht heq)
  · exact .inr (finish_lt_of_position_lt h hs ht hlt)

/-- The byte in front of a free segment is in use. -/
theorem before_not_mem_bytes {p : Pool} (h : Sound p) {s : Segment} (hs : s ∈ p.segments)
    (hpos : s.position ≠ 0) : s.position - 1 ∉ p.bytes := by
  intro hmem
  obtain ⟨t, ht, hle, hlt⟩ := mem_bytes.1 hmem
  have := finish_lt_of_position_lt h ht hs (by omega)
  omega

/-- What is found by way of a position entry is the segment that starts there. -/
theorem occupied_some {p : Pool} (h : Sound p) {entry : Option (Nat × Nat)}
    (hmem : ∀ e, entry = some e → e ∈ p.byPosition.entries) {slot : Nat} {s : Segment}
    (hs : entry.bind p.occupied = some (slot, s)) :
    entry = some (s.position, slot) ∧ p.segmentAt slot = some s := by
  obtain ⟨e, rfl, he⟩ := Option.bind_eq_some_iff.1 hs
  obtain ⟨s', hs', hslot, hposition⟩ := occupied_of_mem h (hmem e rfl)
  rw [hs'] at he
  cases he
  exact ⟨by rw [hposition], hslot⟩

theorem occupied_none {p : Pool} (h : Sound p) {entry : Option (Nat × Nat)}
    (hmem : ∀ e, entry = some e → e ∈ p.byPosition.entries)
    (hs : entry.bind p.occupied = none) : entry = none := by
  cases entry with
  | none => rfl
  | some e =>
    obtain ⟨s, hs', -⟩ := occupied_of_mem h (hmem e rfl)
    rw [Option.bind_some, hs'] at hs
    cases hs

/-- The last segment that starts at or before an offset. -/
theorem atOrBefore_some {p : Pool} (h : Sound p) {offset slot : Nat} {s : Segment}
    (hs : p.atOrBefore offset = some (slot, s)) : p.segmentAt slot = some s ∧
      s.position ≤ offset ∧ ∀ t ∈ p.segments, t.position ≤ offset → t.position ≤ s.position := by
  obtain ⟨he, hslot⟩ := occupied_some h (fun _ he => (p.byPosition.lastUpTo_some he).1) hs
  obtain ⟨-, hle, hmax⟩ := p.byPosition.lastUpTo_some he
  refine ⟨hslot, hle, ?_⟩
  intro t ht hlt
  obtain ⟨j, hj⟩ := entry_of_mem_segments h ht
  exact hmax _ hj hlt

theorem atOrBefore_none {p : Pool} (h : Sound p) {offset : Nat} (hs : p.atOrBefore offset = none) :
    ∀ t ∈ p.segments, offset < t.position := by
  intro t ht
  obtain ⟨j, hj⟩ := entry_of_mem_segments h ht
  have he := occupied_none h (fun _ he => (p.byPosition.lastUpTo_some he).1) hs
  exact p.byPosition.lastUpTo_none he _ hj

/-- The last segment that starts before an offset. -/
theorem neighbourBefore_some {p : Pool} (h : Sound p) {offset slot : Nat} {s : Segment}
    (hs : p.neighbourBefore offset = some (slot, s)) : p.segmentAt slot = some s ∧
      s.position < offset ∧ ∀ t ∈ p.segments, t.position < offset → t.position ≤ s.position := by
  obtain ⟨he, hslot⟩ := occupied_some h (fun _ he => (p.byPosition.lastBefore_some he).1) hs
  obtain ⟨-, hlt, hmax⟩ := p.byPosition.lastBefore_some he
  refine ⟨hslot, hlt, ?_⟩
  intro t ht hlt
  obtain ⟨j, hj⟩ := entry_of_mem_segments h ht
  exact hmax _ hj hlt

theorem neighbourBefore_none {p : Pool} (h : Sound p) {offset : Nat}
    (hs : p.neighbourBefore offset = none) : ∀ t ∈ p.segments, offset ≤ t.position := by
  intro t ht
  obtain ⟨j, hj⟩ := entry_of_mem_segments h ht
  have he := occupied_none h (fun _ he => (p.byPosition.lastBefore_some he).1) hs
  exact p.byPosition.lastBefore_none he _ hj

/-- The first segment that starts at an offset or after it. -/
theorem neighbourFrom_some {p : Pool} (h : Sound p) {offset slot : Nat} {s : Segment}
    (hs : p.neighbourFrom offset = some (slot, s)) : p.segmentAt slot = some s ∧
      offset ≤ s.position ∧ ∀ t ∈ p.segments, offset ≤ t.position → s.position ≤ t.position := by
  obtain ⟨he, hslot⟩ := occupied_some h (fun _ he => (p.byPosition.firstFrom_some he).1) hs
  obtain ⟨-, hle, hmin⟩ := p.byPosition.firstFrom_some he
  refine ⟨hslot, hle, ?_⟩
  intro t ht hlt
  obtain ⟨j, hj⟩ := entry_of_mem_segments h ht
  exact hmin _ hj hlt

theorem neighbourFrom_none {p : Pool} (h : Sound p) {offset : Nat}
    (hs : p.neighbourFrom offset = none) : ∀ t ∈ p.segments, t.position < offset := by
  intro t ht
  obtain ⟨j, hj⟩ := entry_of_mem_segments h ht
  have he := occupied_none h (fun _ he => (p.byPosition.firstFrom_some he).1) hs
  exact p.byPosition.firstFrom_none he _ hj

/-- A segment that starts before an offset is the last such, or ends before that one starts. -/
theorem before_cases {p : Pool} (h : Sound p) {offset : Nat} {t : Segment} (ht : t ∈ p.segments)
    (hlt : t.position < offset) : ∃ slot b, p.neighbourBefore offset = some (slot, b) ∧
      b ∈ p.segments ∧ b.position < offset ∧ (t = b ∨ t.finish < b.position) := by
  cases hb : p.neighbourBefore offset with
  | none => exact absurd hlt (Nat.not_lt.2 (neighbourBefore_none h hb t ht))
  | some found =>
    obtain ⟨slot, b⟩ := found
    obtain ⟨hslot, hbefore, hmax⟩ := neighbourBefore_some h hb
    have hmem := (mem_segments h.toIndexed).2 ⟨slot, hslot⟩
    exact ⟨slot, b, rfl, hmem, hbefore, eq_or_finish_lt h ht hmem (hmax t ht hlt)⟩

/-- A segment that starts at an offset or after it starts no earlier than the first such. -/
theorem from_cases {p : Pool} (h : Sound p) {offset : Nat} {t : Segment} (ht : t ∈ p.segments)
    (hle : offset ≤ t.position) : ∃ slot a, p.neighbourFrom offset = some (slot, a) ∧
      a ∈ p.segments ∧ offset ≤ a.position ∧ a.position ≤ t.position := by
  cases ha : p.neighbourFrom offset with
  | none => exact absurd (neighbourFrom_none h ha t ht) (Nat.not_lt.2 hle)
  | some found =>
    obtain ⟨slot, a⟩ := found
    obtain ⟨hslot, hfrom, hmin⟩ := neighbourFrom_some h ha
    exact ⟨slot, a, rfl, (mem_segments h.toIndexed).2 ⟨slot, hslot⟩, hfrom, hmin t ht hle⟩

/-! ## Release -/

/-- No free segment shares a byte with `s`. -/
def Clear (p : Pool) (s : Segment) : Prop :=
  ∀ t ∈ p.segments, t.finish ≤ s.position ∨ s.finish ≤ t.position

theorem clear_iff_disjoint {p : Pool} (h : Sound p) {s : Segment} (hsize : 0 < s.size) :
    p.Clear s ↔ Disjoint s.bytes p.bytes := by
  constructor
  · intro hclear
    apply Finset.disjoint_left.2
    intro x hx hx'
    obtain ⟨t, ht, hxt⟩ := mem_bytes.1 hx'
    rw [Segment.mem_bytes] at hx
    rcases hclear t ht with hlt | hlt <;> omega
  · intro hdisjoint t ht
    by_contra hout
    obtain ⟨slot, hslot⟩ := (mem_segments h.toIndexed).1 ht
    have hpos := h.nonempty _ _ hslot
    -- the greater of the two positions lies in both ranges
    have hx : max s.position t.position ∈ s.bytes := by
      rw [Segment.mem_bytes]
      unfold Segment.finish at *
      omega
    refine Finset.disjoint_left.1 hdisjoint hx (mem_bytes.2 ⟨t, ht, ?_⟩)
    unfold Segment.finish at *
    omega

theorem nonempty_of_mem {p : Pool} (h : Sound p) {t : Segment} (ht : t ∈ p.segments) :
    0 < t.size := by
  obtain ⟨slot, hslot⟩ := (mem_segments h.toIndexed).1 ht
  exact h.nonempty _ _ hslot

theorem overlaps_eq_false_iff {p : Pool} (h : Sound p) {t : Segment} (ht : t ∈ p.segments)
    {offset size : Nat} (hsize : 0 < size) :
    t.overlaps offset size = false ↔ t.finish ≤ offset ∨ offset + size ≤ t.position := by
  have hpos := nonempty_of_mem h ht
  simp only [Segment.overlaps, Bool.and_eq_false_iff, decide_eq_false_iff_not]
  omega

/-- Looking at the two nearest segments is enough to see a shared byte. -/
theorem clashes_iff {p : Pool} (h : Sound p) (offset : Nat) {size : Nat} (hsize : 0 < size) :
    (clashes (p.neighbourBefore offset) offset size ||
      clashes (p.neighbourFrom offset) offset size) = false ↔ p.Clear ⟨offset, size⟩ := by
  rw [Bool.or_eq_false_iff]
  constructor
  · rintro ⟨hbefore, hafter⟩ t ht
    simp only [Segment.finish]
    by_cases hlt : t.position < offset
    · obtain ⟨slot, b, hb, hmem, hstart, heq | hend⟩ := before_cases h ht hlt
      · rw [hb] at hbefore
        rw [heq]
        exact (overlaps_eq_false_iff h hmem hsize).1 hbefore
      · exact .inl (by unfold Segment.finish at *; omega)
    · obtain ⟨slot, a, ha, hmem, hfrom, hle⟩ := from_cases h ht (Nat.not_lt.1 hlt)
      rw [ha] at hafter
      have hpos := nonempty_of_mem h hmem
      rcases (overlaps_eq_false_iff h hmem hsize).1 hafter with hend | hend
      · unfold Segment.finish at hend
        omega
      · exact .inr (by omega)
  · intro hclear
    have hfound : ∀ {found : Option (Nat × Segment)},
        (∀ slot t, found = some (slot, t) → p.segmentAt slot = some t) →
        clashes found offset size = false := by
      intro found hfound
      cases found with
      | none => rfl
      | some e =>
        have hmem := (mem_segments h.toIndexed).2 ⟨e.1, hfound e.1 e.2 rfl⟩
        exact (overlaps_eq_false_iff h hmem hsize).2 (hclear _ hmem)
    exact ⟨hfound fun _ _ hb => (neighbourBefore_some h hb).1,
      hfound fun _ _ ha => (neighbourFrom_some h ha).1⟩

/-- What joining with a neighbour does: nothing unless they touch. -/
theorem absorb_cases {p : Pool} (s : Segment) (neighbour : Option (Nat × Segment)) :
    (p.absorb s neighbour = (p, s) ∧
      ∀ slot t, neighbour = some (slot, t) → t.finish ≠ s.position ∧ s.finish ≠ t.position) ∨
    ∃ slot t, neighbour = some (slot, t) ∧ (t.finish = s.position ∨ s.finish = t.position) ∧
      p.absorb s neighbour = (p.remove slot, ⟨min t.position s.position, t.size + s.size⟩) := by
  cases neighbour with
  | none => exact .inl ⟨rfl, fun _ _ hn => by cases hn⟩
  | some found =>
    obtain ⟨slot, t⟩ := found
    by_cases htouch : t.finish = s.position ∨ s.finish = t.position
    · refine .inr ⟨slot, t, rfl, htouch, ?_⟩
      have hjoin : t.join? s = some ⟨min t.position s.position, t.size + s.size⟩ := by
        simp only [Segment.join?, Segment.touches, Bool.or_eq_true, decide_eq_true_eq, htouch,
          if_true]
      simp only [absorb, hjoin]
    · refine .inl ⟨?_, ?_⟩
      · have hjoin : t.join? s = none := by
          simp only [Segment.join?, Segment.touches, Bool.or_eq_true, decide_eq_true_eq, htouch,
            if_false]
        simp only [absorb, hjoin]
      · rintro _ _ ⟨⟩
        exact not_or.1 htouch

/-- A neighbour that touches `s`, and `s`, hold together the bytes of the joined segment. -/
theorem bytes_joined {s t : Segment} (h : t.finish = s.position ∨ s.finish = t.position) :
    t.bytes ∪ s.bytes = Segment.bytes ⟨min t.position s.position, t.size + s.size⟩ := by
  ext x
  simp only [Finset.mem_union, Segment.mem_bytes, Segment.finish] at *
  omega

/-- Joining neither adds nor loses a byte. -/
theorem absorb_bytes {p : Pool} (h : Sound p) {s : Segment} {neighbour : Option (Nat × Segment)}
    (hn : ∀ slot t, neighbour = some (slot, t) → p.segmentAt slot = some t) :
    Sound (p.absorb s neighbour).1 ∧
      (p.absorb s neighbour).1.bytes ∪ (p.absorb s neighbour).2.bytes = p.bytes ∪ s.bytes := by
  rcases absorb_cases s neighbour with ⟨heq, -⟩ | ⟨slot, t, rfl, htouch, heq⟩
  · rw [heq]
    exact ⟨h, rfl⟩
  · have hslot := hn slot t rfl
    have hsub : t.bytes ⊆ p.bytes :=
      segment_bytes_subset ((mem_segments h.toIndexed).2 ⟨slot, hslot⟩)
    rw [heq]
    refine ⟨h.remove slot, ?_⟩
    rw [bytes_remove h hslot, ← bytes_joined htouch, ← Finset.union_assoc,
      Finset.sdiff_union_of_subset hsub]

/-- A free segment that does not reach past a clear range starts before it. -/
theorem position_lt_of_finish_le {p : Pool} (h : Sound p) {t : Segment} (ht : t ∈ p.segments)
    {offset : Nat} (hle : t.finish ≤ offset) : t.position < offset := by
  have hpos := nonempty_of_mem h ht
  unfold Segment.finish at hle
  omega

/-- After the join with the last segment before it, a clear range touches nothing before it. -/
theorem absorb_before {p : Pool} (h : Sound p) {s : Segment} (hsize : 0 < s.size)
    (hclear : p.Clear s) {q : Pool} {joined : Segment}
    (hq : p.absorb s (p.neighbourBefore s.position) = (q, joined)) :
    joined.finish = s.finish ∧ joined.position ≤ s.position ∧
      (∀ t ∈ q.segments, t.finish < joined.position ∨ s.finish ≤ t.position) ∧
      (∀ slot t, p.segmentAt slot = some t → s.position ≤ t.position →
        q.segmentAt slot = some t) ∧ ∀ t ∈ q.segments, t ∈ p.segments := by
  rcases absorb_cases s (p.neighbourBefore s.position) with
    ⟨heq, hnot⟩ | ⟨slot, b, hb, htouch, heq⟩
  · -- nothing is joined: the last segment before the range ends short of it, and so do all before
    rw [heq] at hq
    cases hq
    refine ⟨rfl, Nat.le_refl _, ?_, fun _ _ ht _ => ht, fun _ ht => ht⟩
    intro t ht
    rcases hclear t ht with hle | hle
    · obtain ⟨slot, b, hb, -, hbefore, hcases⟩ :=
        before_cases h ht (position_lt_of_finish_le h ht hle)
      rcases hcases with rfl | hlt
      · have := (hnot slot _ hb).1
        exact .inl (by omega)
      · exact .inl (by omega)
    · exact .inr hle
  · -- the last segment before the range is joined to it, and those before it end short of it
    obtain ⟨hslot, hbefore, -⟩ := neighbourBefore_some h hb
    rw [heq] at hq
    cases hq
    have hend : b.finish = s.position := by
      unfold Segment.finish at *
      omega
    refine ⟨?_, Nat.min_le_right _ _, ?_, ?_, ?_⟩
    · simp only [Segment.finish] at *
      omega
    · intro t ht
      obtain ⟨ht, hne⟩ := (mem_segments_remove h.toIndexed hslot).1 ht
      rcases hclear t ht with hle | hle
      · obtain ⟨slot', b', hb', -, -, hcases⟩ :=
          before_cases h ht (position_lt_of_finish_le h ht hle)
        rw [hb] at hb'
        cases hb'
        rcases hcases with rfl | hlt
        · exact absurd rfl hne
        · exact .inl (by simp only; omega)
      · exact .inr hle
    · intro i t ht hle
      rw [segmentAt_remove, if_neg, ht]
      rintro rfl
      rw [hslot] at ht
      cases ht
      omega
    · intro t ht
      exact ((mem_segments_remove h.toIndexed hslot).1 ht).1

/-- After the join with the first segment from its end on, nothing touches a range any more that
nothing touched before it. -/
theorem absorb_after {p : Pool} (h : Sound p) {s : Segment} (hbound : s.finish < Offset.bound)
    (hclear : ∀ t ∈ p.segments, t.finish < s.position ∨ s.finish ≤ t.position)
    {neighbour : Option (Nat × Segment)}
    (hsome : ∀ slot t, neighbour = some (slot, t) → p.segmentAt slot = some t ∧
      s.finish ≤ t.position ∧ ∀ u ∈ p.segments, s.finish ≤ u.position → t.position ≤ u.position)
    (hnone : neighbour = none → ∀ u ∈ p.segments, u.position < s.finish)
    {q : Pool} {merged : Segment} (hq : p.absorb s neighbour = (q, merged)) :
    merged.finish < Offset.bound ∧ s.size ≤ merged.size ∧ ∀ t ∈ q.segments, t.Apart merged := by
  rcases absorb_cases s neighbour with ⟨heq, hnot⟩ | ⟨slot, a, rfl, htouch, heq⟩
  · rw [heq] at hq
    cases hq
    refine ⟨hbound, Nat.le_refl _, ?_⟩
    intro t ht
    rcases hclear t ht with hlt | hle
    · exact .inl hlt
    · cases hn : neighbour with
      | none => exact absurd hle (Nat.not_le.2 (hnone hn t ht))
      | some found =>
        obtain ⟨-, hafter, hmin⟩ := hsome found.1 found.2 hn
        have := (hnot found.1 found.2 hn).2
        have := hmin t ht hle
        exact .inr (by omega)
  · obtain ⟨hslot, hafter, hmin⟩ := hsome slot a rfl
    have hmem := (mem_segments h.toIndexed).2 ⟨slot, hslot⟩
    have hend := h.bounded _ _ hslot
    have hpos := h.nonempty _ _ hslot
    rw [heq] at hq
    cases hq
    have hend' : s.finish = a.position := by
      unfold Segment.finish at *
      omega
    refine ⟨?_, Nat.le_add_left _ _, ?_⟩
    · simp only [Segment.finish] at *
      omega
    · intro t ht
      obtain ⟨ht, hne⟩ := (mem_segments_remove h.toIndexed hslot).1 ht
      rcases hclear t ht with hlt | hle
      · left
        simp only [Segment.finish] at *
        omega
      · right
        rcases eq_or_finish_lt h hmem ht (hmin t ht hle) with heq | hlt
        · exact absurd heq.symm hne
        · simp only [Segment.finish] at *
          omega

/-- A range is taken back exactly if it is not empty, ends in the range of offsets, and was in
use. -/
theorem release_iff {p : Pool} (h : Sound p) (offset size : Nat) :
    (∃ q, p.release offset size = .ok q) ↔ 0 < size ∧ offset + size < Offset.bound ∧
      Disjoint (Finset.Ico offset (offset + size)) p.bytes := by
  have hdisjoint : 0 < size →
      (p.Clear ⟨offset, size⟩ ↔ Disjoint (Finset.Ico offset (offset + size)) p.bytes) :=
    fun hsize => clear_iff_disjoint h hsize
  unfold release
  by_cases hrange : size = 0 ∨ Offset.sum? offset size = none
  · rw [if_pos hrange]
    rw [Offset.sum?_eq_none_iff] at hrange
    constructor
    · rintro ⟨q, hq⟩
      cases hq
    · rintro ⟨hsize, hbound, -⟩
      omega
  · rw [if_neg hrange]
    rw [Offset.sum?_eq_none_iff] at hrange
    have hsize : 0 < size := by omega
    have hclashes := clashes_iff h offset hsize
    rw [← hdisjoint hsize, ← hclashes]
    cases hclash : clashes (p.neighbourBefore offset) offset size ||
        clashes (p.neighbourFrom offset) offset size with
    | true => simp only [hclash, if_true, reduceCtorEq, exists_false, and_false]
    | false =>
      simp only [hclash, Bool.false_eq_true, if_false, and_true]
      exact ⟨fun _ => ⟨hsize, by omega⟩, fun _ => ⟨_, rfl⟩⟩

/-- The two joins of a release: the pool after the first and the segment it makes, and those after
the second, which can be put in. -/
structure Joined (p : Pool) (offset size : Nat) (p₁ : Pool) (joined : Segment) (p₂ : Pool)
    (merged : Segment) : Prop where
  sound : Sound p₁
  bounded : joined.finish < Offset.bound
  /-- The neighbour behind the range was found before the first join, and is still there. -/
  kept : ∀ slot t, p.neighbourFrom offset = some (slot, t) → p₁.segmentAt slot = some t
  insert : Sound (p₂.insert merged)
  bytes : (p₂.insert merged).bytes = p.bytes ∪ Finset.Ico offset (offset + size)

theorem joined_of_clear {p p₁ p₂ : Pool} {joined merged : Segment} (h : Sound p)
    {offset size : Nat} (hsize : 0 < size) (hbound : offset + size < Offset.bound)
    (hclear : p.Clear ⟨offset, size⟩)
    (hb : p.absorb ⟨offset, size⟩ (p.neighbourBefore offset) = (p₁, joined))
    (ha : p₁.absorb joined (p.neighbourFrom offset) = (p₂, merged)) :
    Joined p offset size p₁ joined p₂ merged := by
  obtain ⟨hp₁, hbytes₁⟩ := absorb_bytes h (s := ⟨offset, size⟩)
    (fun _ _ hb => (neighbourBefore_some h hb).1)
  rw [hb] at hp₁ hbytes₁
  -- the first join may end at the range, and nothing before it touches the joined segment
  obtain ⟨hend, hle, hclear₁, hkept, hsub⟩ := absorb_before h (s := ⟨offset, size⟩) hsize hclear hb
  have hend' : joined.finish = offset + size := hend
  have hle' : joined.position ≤ offset := hle
  have hafter : ∀ slot t, p.neighbourFrom offset = some (slot, t) → p₁.segmentAt slot = some t ∧
      joined.finish ≤ t.position ∧
      ∀ u ∈ p₁.segments, joined.finish ≤ u.position → t.position ≤ u.position := by
    intro slot t ht
    obtain ⟨hslot, hfrom, hmin⟩ := neighbourFrom_some h ht
    have hpos := h.nonempty _ _ hslot
    refine ⟨hkept slot t hslot hfrom, ?_, fun u hu hlt => hmin u (hsub u hu) (by omega)⟩
    rcases hclear t ((mem_segments h.toIndexed).2 ⟨slot, hslot⟩) with hlt | hlt
    · simp only [Segment.finish] at *
      omega
    · rw [hend]
      exact hlt
  -- after the second join nothing touches it at all, so it can be put in
  obtain ⟨hp₂, hbytes₂⟩ := absorb_bytes hp₁ (s := joined) (fun _ _ ha => (hafter _ _ ha).1)
  rw [ha] at hp₂ hbytes₂
  simp only at hp₂ hbytes₂ hp₁ hbytes₁
  obtain ⟨hbound', hgrows, hapart⟩ := absorb_after hp₁ (by omega)
    (fun t ht => (hclear₁ t ht).imp_right fun hlt => by rw [hend]; exact hlt) hafter
    (fun hn u hu => by
      have := neighbourFrom_none h hn u (hsub u hu)
      omega) ha
  have hmerged : 0 < merged.size := by
    unfold Segment.finish at hend'
    omega
  have hi := hp₂.insert hmerged hbound' hapart
  refine ⟨hp₁, by omega, fun slot t ht => (hafter slot t ht).1, hi, ?_⟩
  rw [bytes_insert hp₂ hi, hbytes₂, hbytes₁]
  rfl

/-- A range that is taken back is put in, joined with what it touches. -/
theorem release_eq_insert {p q : Pool} (h : Sound p) {offset size : Nat}
    (hq : p.release offset size = .ok q) :
    ∃ p₁ joined p₂ merged,
      p.absorb ⟨offset, size⟩ (p.neighbourBefore offset) = (p₁, joined) ∧
      p₁.absorb joined (p.neighbourFrom offset) = (p₂, merged) ∧
      Joined p offset size p₁ joined p₂ merged ∧ q = p₂.insert merged := by
  obtain ⟨hsize, hbound, hdisjoint⟩ := (release_iff h offset size).1 ⟨q, hq⟩
  have hclear := (clear_iff_disjoint (s := ⟨offset, size⟩) h hsize).2 hdisjoint
  have hclash := (clashes_iff h offset hsize).2 hclear
  have hrange : ¬ (size = 0 ∨ Offset.sum? offset size = none) := by
    rw [Offset.sum?_eq_none_iff]
    omega
  unfold release at hq
  rw [if_neg hrange] at hq
  simp only [hclash, Bool.false_eq_true, if_false, Except.ok.injEq] at hq
  exact ⟨_, _, _, _, rfl, rfl, joined_of_clear h hsize hbound hclear rfl rfl, hq.symm⟩

/-- A range that is taken back is free, and nothing else changes. -/
theorem release_ok {p q : Pool} (h : Sound p) {offset size : Nat}
    (hq : p.release offset size = .ok q) :
    Sound q ∧ q.bytes = p.bytes ∪ Finset.Ico offset (offset + size) := by
  obtain ⟨p₁, joined, p₂, merged, -, -, hjoined, rfl⟩ := release_eq_insert h hq
  exact ⟨hjoined.insert, hjoined.bytes⟩

/-! ## Taking a range out -/

theorem take_eq_cut {p : Pool} {offset size slot : Nat} {s : Segment} (hsize : 0 < size)
    (hs : p.atOrBefore offset = some (slot, s)) (hcovers : s.covers offset size = true) :
    p.take offset size = .ok (p.cut slot s offset size) := by
  unfold take
  rw [if_neg (by omega), hs]
  simp only [hcovers, if_true]
  rfl

theorem covers_iff {s : Segment} {offset size : Nat} (h : s.finish < Offset.bound) :
    s.covers offset size = true ↔ s.position ≤ offset ∧ offset + size ≤ s.finish := by
  unfold Segment.covers
  cases hsum : Offset.sum? offset size with
  | none =>
    rw [Offset.sum?_eq_none_iff] at hsum
    simp only [Bool.and_false, Bool.false_eq_true, false_iff]
    omega
  | some last =>
    obtain ⟨rfl, -⟩ := Offset.sum?_eq_some_iff.1 hsum
    simp only [Bool.and_eq_true, decide_eq_true_eq]

/-- A range is taken out of the segment that covers it; an empty one from anywhere. -/
theorem take_cases {p q : Pool} (h : Sound p) {offset size : Nat}
    (hq : p.take offset size = .ok q) : (size = 0 ∧ q = p) ∨
      (0 < size ∧ ∃ slot s, p.segmentAt slot = some s ∧ s.position ≤ offset ∧
        offset + size ≤ s.finish ∧ q = p.cut slot s offset size) := by
  by_cases hsize : size = 0
  · subst hsize
    cases hq
    exact .inl ⟨rfl, rfl⟩
  · right
    cases hs : p.atOrBefore offset with
    | none =>
      unfold take at hq
      rw [if_neg hsize, hs] at hq
      cases hq
    | some found =>
      obtain ⟨slot, s⟩ := found
      obtain ⟨hslot, hle, -⟩ := atOrBefore_some h hs
      by_cases hcovers : s.covers offset size = true
      · rw [take_eq_cut (by omega) hs hcovers] at hq
        cases hq
        exact ⟨by omega, slot, s, hslot, hle, ((covers_iff (h.bounded _ _ hslot)).1 hcovers).2, rfl⟩
      · unfold take at hq
        rw [if_neg hsize, hs] at hq
        simp only [hcovers, Bool.false_eq_true, if_false] at hq
        cases hq

/-- What is taken out is no longer free, and nothing else changes. -/
theorem take_ok {p q : Pool} (h : Sound p) {offset size : Nat} (hq : p.take offset size = .ok q) :
    Sound q ∧ q.bytes = p.bytes \ Finset.Ico offset (offset + size) := by
  rcases take_cases h hq with ⟨rfl, rfl⟩ | ⟨hsize, slot, s, hslot, hle, hend, rfl⟩
  · rw [Nat.add_zero, Finset.Ico_self, Finset.sdiff_empty]
    exact ⟨h, rfl⟩
  · exact cut_spec h hslot hsize hle hend

/-- The segment that holds the first byte of a free range holds the whole range. -/
theorem subset_segment {p : Pool} (h : Sound p) {offset size : Nat} (hsize : 0 < size)
    (hsub : Finset.Ico offset (offset + size) ⊆ p.bytes) :
    ∃ s ∈ p.segments, s.position ≤ offset ∧ offset + size ≤ s.finish := by
  obtain ⟨s, hs, hle, hlt⟩ := mem_bytes.1 (hsub (Finset.mem_Ico.2 ⟨Nat.le_refl _, by omega⟩))
  refine ⟨s, hs, hle, ?_⟩
  by_contra hshort
  exact finish_not_mem_bytes h hs (hsub (Finset.mem_Ico.2 ⟨by omega, by omega⟩))

/-- A free range can be taken out. -/
theorem exists_take {p : Pool} (h : Sound p) {offset size : Nat}
    (hsub : Finset.Ico offset (offset + size) ⊆ p.bytes) : ∃ q, p.take offset size = .ok q := by
  by_cases hsize : size = 0
  · subst hsize
    exact ⟨p, rfl⟩
  · obtain ⟨t, ht, hle, hend⟩ := subset_segment h (by omega) hsub
    cases hs : p.atOrBefore offset with
    | none => exact absurd hle (Nat.not_le.2 (atOrBefore_none h hs t ht))
    | some found =>
      obtain ⟨slot, s⟩ := found
      obtain ⟨hslot, hle', hmax⟩ := atOrBefore_some h hs
      have hmem := (mem_segments h.toIndexed).2 ⟨slot, hslot⟩
      rcases eq_or_finish_lt h ht hmem (hmax t ht hle) with rfl | hlt
      · exact ⟨_, take_eq_cut (by omega) hs ((covers_iff (h.bounded _ _ hslot)).2 ⟨hle, hend⟩)⟩
      · omega

/-- Exactly the free ranges can be taken out. -/
theorem take_iff {p : Pool} (h : Sound p) (offset size : Nat) :
    (∃ q, p.take offset size = .ok q) ↔ Finset.Ico offset (offset + size) ⊆ p.bytes := by
  refine ⟨?_, exists_take h⟩
  rintro ⟨q, hq⟩
  rcases take_cases h hq with ⟨rfl, -⟩ | ⟨-, slot, s, hslot, hle, hend, -⟩
  · simp
  · exact (Finset.Ico_subset_Ico hle hend).trans
      (segment_bytes_subset ((mem_segments h.toIndexed).2 ⟨slot, hslot⟩))

end Pool

end SpillStorage
