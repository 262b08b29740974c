import SpillStorage.Proofs.Pool.Canonical

/-!
Which free segment an allocation takes.

What is proved:
  1. `allocate_none_iff` and `allocate_best`: an allocation takes the head of a smallest segment
     that fits, the one on top of the stack of its size, and fails only if none fits.
  2. `release_merged` and `parted`: what a release and a cut leave, and which segments are new.
  3. `Aged.serve` and `Aged.run`: through every run the stacks list the segments by age, the last
     created first.
  4. `best_fit_newest_first`: all three together, for every run from the empty pool.
  5. `reuse_of_taken` and `reuse_of_missed`: a range that was allocated and is released is what the
     same request takes next.

Slots say nothing about age, since an emptied one is filled again. The proof keeps a list of all
segments ever created: a segment may leave its stack from any place, and the others stay in the
order of that list.
-/

namespace SpillStorage

/-- The range from `start` to `finish`, if it is not empty. -/
def Segment.between (start finish : Nat) : List Segment :=
  if start < finish then [⟨start, finish - start⟩] else []

theorem Segment.mem_between {t : Segment} {start finish : Nat} :
    t ∈ between start finish ↔ start < finish ∧ t.position = start ∧ t.finish = finish := by
  obtain ⟨position, size⟩ := t
  unfold between
  split
  · simp only [List.mem_singleton, Segment.mk.injEq, Segment.finish]
    omega
  · simp only [List.not_mem_nil, false_iff]
    omega

theorem Segment.between_self (start : Nat) : between start start = [] := if_neg (Nat.lt_irrefl _)

theorem Segment.reverse_between (start finish : Nat) :
    (between start finish).reverse = between start finish := by
  unfold between
  split <;> rfl

theorem Segment.between_sorted (start finish : Nat) :
    (between start finish).Pairwise fun s t => s.finish < t.position := by
  unfold between
  split
  · exact List.pairwise_singleton _ _
  · exact List.Pairwise.nil

namespace Pool

variable {p q : Pool} {births : List Segment} {s : Segment} {offset size slot : Nat}

/-! ## The best fit -/

/-- A free segment that fits, where no smaller one does. -/
structure SmallestFit (p : Pool) (size : Nat) (s : Segment) : Prop where
  free : s ∈ p.segments
  fits : size ≤ s.size
  least : ∀ t ∈ p.segments, size ≤ t.size → s.size ≤ t.size

/-- The segment lies on top of the stack of its size. -/
def OnTop (p : Pool) (slot : Nat) (s : Segment) : Prop :=
  p.segmentAt slot = some s ∧ (p.stack s.size).head? = some slot

theorem bestFit_none (h : Sound p) (hfit : p.bestFit size = none) :
    ∀ s ∈ p.segments, s.size < size := by
  intro s hs
  obtain ⟨slots, hslots⟩ := exists_stack_of_mem h hs
  unfold bestFit at hfit
  cases hfirst : p.bySize.firstFrom size with
  | none => exact p.bySize.firstFrom_none hfirst _ hslots
  | some entry =>
    rw [hfirst, Option.bind_some, List.head?_eq_none_iff] at hfit
    have hmem := (p.bySize.firstFrom_some hfirst).1
    have hempty : p.bySize.get? entry.1 = some [] :=
      p.bySize.get?_eq_some_iff.2 (by rw [← hfit]; exact hmem)
    exact absurd hempty (h.stack_ne_nil _)

/-- The best fit is a smallest segment that fits, on top of its stack. -/
theorem bestFit_best (h : Sound p) (hfit : p.bestFit size = some slot)
    (hs : p.segmentAt slot = some s) : p.SmallestFit size s ∧ p.OnTop slot s := by
  obtain ⟨least, hle, hhead, hleast⟩ := bestFit_top hfit
  have hsize : s.size = least := by
    obtain ⟨t, ht, htsize⟩ := (h.stack_iff least slot).1 (List.mem_of_mem_head? hhead)
    rw [hs] at ht
    cases ht
    exact htsize
  subst hsize
  refine ⟨⟨(mem_segments h.toIndexed).2 ⟨slot, hs⟩, hle, ?_⟩, hs, hhead⟩
  intro t ht hfits
  obtain ⟨slots, hslots⟩ := exists_stack_of_mem h ht
  exact hleast _ hslots hfits

/-- An allocation cuts the head off the best fit. -/
theorem allocate_best (h : Sound p) (ha : p.allocate size = some (offset, q)) :
    0 < size ∧ ∃ slot s, p.SmallestFit size s ∧ p.OnTop slot s ∧ s.position = offset ∧
      q = p.cut slot s offset size := by
  obtain ⟨hsize, slot, s, hfit, hs, hposition, hq⟩ := allocate_eq_bestFit ha
  obtain ⟨hsmallest, htop⟩ := bestFit_best h hfit hs
  exact ⟨hsize, slot, s, hsmallest, htop, hposition, hq⟩

/-- An allocation fails only if nothing was asked for, or no free segment fits. -/
theorem allocate_none_iff (h : Sound p) :
    p.allocate size = none ↔ size = 0 ∨ ∀ s ∈ p.segments, s.size < size := by
  constructor
  · intro hnone
    by_cases hsize : size = 0
    · exact .inl hsize
    · right
      cases hfit : p.bestFit size with
      | none => exact bestFit_none h hfit
      | some slot =>
        obtain ⟨s, hs, -⟩ := bestFit_some h hfit
        simp [allocate, hsize, hfit, hs] at hnone
  · intro hsmall
    cases ha : p.allocate size with
    | none => rfl
    | some found =>
      obtain ⟨hsize, slot, s, hfit, -⟩ := allocate_best h ha
      have hfits := hfit.fits
      rcases hsmall with hzero | hsmall
      · omega
      · have := hsmall s hfit.free
        omega

theorem lt_of_missed (h : Sound p) (hsize : 0 < size) (ha : p.allocate size = none) :
    ∀ s ∈ p.segments, s.size < size :=
  ((allocate_none_iff h).1 ha).resolve_left (Nat.pos_iff_ne_zero.1 hsize)

/-- A smallest segment that fits, on top of its stack, is what a request takes. -/
theorem allocate_of_top (h : Sound p) (hsize : 0 < size) (hfit : p.SmallestFit size s)
    (htop : p.OnTop slot s) : ∃ q, p.allocate size = some (s.position, q) := by
  cases ha : p.allocate size with
  | none => exact absurd hfit.fits (Nat.not_le.2 (lt_of_missed h hsize ha s hfit.free))
  | some found =>
    obtain ⟨offset, q⟩ := found
    obtain ⟨-, other, t, hfit', htop', rfl, -⟩ := allocate_best h ha
    -- both are smallest, so they lie on one stack, and it has one top
    have hsame : t.size = s.size :=
      Nat.le_antisymm (hfit'.least s hfit.free hfit.fits) (hfit.least t hfit'.free hfit'.fits)
    have hslots := htop'.2
    rw [hsame, htop.2, Option.some.injEq] at hslots
    have hst := htop'.1
    rw [← hslots, htop.1, Option.some.injEq] at hst
    exact ⟨q, by rw [hst]⟩

/-! ## Segments by age -/

/-- The stacks list the segments by age. `births` are the segments created so far, the last one
first; one that was created twice is as young as the last time. -/
structure Aged (p : Pool) (births : List Segment) : Prop where
  born : ∀ s ∈ p.segments, s ∈ births
  younger : ∀ size, (p.stack size).Pairwise fun i j => ∀ s t, p.segmentAt i = some s →
    p.segmentAt j = some t → births.idxOf s < births.idxOf t

namespace Aged

theorem empty : Aged empty [] := by
  refine ⟨fun s hs => ?_, fun size => ?_⟩
  · simp [segments, Pool.empty, Index.empty, Index.values] at hs
  · simp [stack, Pool.empty, Index.empty, Index.get?]

/-- A segment that is put in is the youngest. -/
theorem insert (ha : Aged p births) (h : Indexed p) (hi : Indexed (p.insert s))
    (hnew : s ∉ p.segments) : Aged (p.insert s) (s :: births) := by
  -- what lay in a slot of a stack lies there still, and is older
  have kept : ∀ size, ∀ i ∈ p.stack size, ∀ t, (p.insert s).segmentAt i = some t →
      p.segmentAt i = some t ∧ (s :: births).idxOf t = births.idxOf t + 1 := by
    intro size i hi t ht
    obtain ⟨u, hu, -⟩ := (h.stack_iff _ _).1 hi
    have hslot : i ≠ p.nextSlot := by
      rintro rfl
      rw [segmentAt_nextSlot h] at hu
      cases hu
    rw [segmentAt_insert h, if_neg hslot] at ht
    have hne : s ≠ t := by
      rintro rfl
      exact hnew ((mem_segments h).2 ⟨i, ht⟩)
    exact ⟨ht, List.idxOf_cons_ne _ hne⟩
  have older : ∀ size, (p.stack size).Pairwise fun i j => ∀ t u,
      (p.insert s).segmentAt i = some t → (p.insert s).segmentAt j = some u →
        (s :: births).idxOf t < (s :: births).idxOf u := by
    intro size
    apply (ha.younger size).imp_of_mem
    intro i j hi hj hij t u ht hu
    obtain ⟨ht, htAge⟩ := kept size i hi t ht
    obtain ⟨hu, huAge⟩ := kept size j hj u hu
    have := hij t u ht hu
    omega
  refine ⟨?_, ?_⟩
  · intro t ht
    rcases (mem_segments_insert h hi).1 ht with rfl | ht
    · exact List.mem_cons_self
    · exact List.mem_cons_of_mem _ (ha.born t ht)
  · intro size
    rw [stack_insert]
    split
    · refine List.pairwise_cons.2 ⟨?_, older _⟩
      intro j hj t u ht hu
      rw [segmentAt_insert h, if_pos rfl] at ht
      cases ht
      rw [(kept _ j hj u hu).2, List.idxOf_cons_self]
      omega
    · exact older size

/-- The others keep their age when a segment goes. -/
theorem remove (ha : Aged p births) (h : Indexed p) (slot : Nat) :
    Aged (p.remove slot) births := by
  cases hs : p.segmentAt slot with
  | none =>
    rw [remove_of_vacant hs]
    exact ha
  | some s =>
    refine ⟨fun t ht => ha.born t ((mem_segments_remove h hs).1 ht).1, ?_⟩
    intro size
    have hsub : ((p.remove slot).stack size).Sublist (p.stack size) := by
      rw [stack_remove hs]
      split
      · exact List.erase_sublist
      · exact List.Sublist.refl _
    apply ((ha.younger size).sublist hsub).imp
    intro i j hij t u ht hu
    obtain ⟨-, ht⟩ := (segmentAt_remove_iff p slot i t).1 ht
    obtain ⟨-, hu⟩ := (segmentAt_remove_iff p slot j u).1 hu
    exact hij t u ht hu

theorem absorb (ha : Aged p births) (h : Indexed p) (s : Segment)
    (neighbour : Option (Nat × Segment)) : Aged (p.absorb s neighbour).1 births := by
  rcases absorb_cases s neighbour with ⟨heq, -⟩ | ⟨slot, t, -, -, heq⟩
  · rw [heq]
    exact ha
  · rw [heq]
    exact ha.remove h slot

end Aged

/-! ## What a release creates -/

theorem Sound.absorb (h : Sound p) (s : Segment) (neighbour : Option (Nat × Segment)) :
    Sound (p.absorb s neighbour).1 := by
  rcases absorb_cases s neighbour with ⟨heq, -⟩ | ⟨slot, t, -, -, heq⟩
  · rw [heq]
    exact h
  · rw [heq]
    exact h.remove slot

theorem mem_of_mem_absorb (h : Indexed p) {neighbour : Option (Nat × Segment)} {t : Segment}
    (ht : t ∈ (p.absorb s neighbour).1.segments) : t ∈ p.segments := by
  rcases absorb_cases s neighbour with ⟨heq, -⟩ | ⟨slot, u, -, -, heq⟩
  · rwa [heq] at ht
  · rw [heq] at ht
    obtain ⟨i, hi⟩ := (mem_segments (h.remove slot)).1 ht
    exact (mem_segments h).2 ⟨i, ((segmentAt_remove_iff p slot i t).1 hi).2⟩

/-- A segment is part of what it is joined to. -/
theorem absorb_grows (p : Pool) (s : Segment) (neighbour : Option (Nat × Segment)) :
    (p.absorb s neighbour).2.position ≤ s.position ∧
      s.finish ≤ (p.absorb s neighbour).2.finish := by
  rcases absorb_cases s neighbour with ⟨heq, -⟩ | ⟨slot, t, -, htouch, heq⟩
  · rw [heq]
    exact ⟨Nat.le_refl _, Nat.le_refl _⟩
  · rw [heq]
    unfold Segment.finish at *
    simp only
    omega

/-- A release leaves the range joined with what it touched, the youngest of the free segments; all
others were there before. -/
structure Merged (p q : Pool) (offset size : Nat) (s : Segment) : Prop where
  position_le : s.position ≤ offset
  le_finish : offset + size ≤ s.finish
  new : s ∉ p.segments
  free : s ∈ q.segments
  rest : ∀ t ∈ q.segments, t = s ∨ t ∈ p.segments
  top : ∃ slot, q.OnTop slot s
  aged : ∀ births, Aged p births → Aged q (s :: births)

theorem release_merged (h : Sound p) (hq : p.release offset size = .ok q) :
    ∃ s, Merged p q offset size s := by
  obtain ⟨hsize, -, hdisjoint⟩ := (release_iff h offset size).1 ⟨q, hq⟩
  obtain ⟨p₁, joined, p₂, merged, hfirst, hsecond, hjoined, rfl⟩ := release_eq_insert h hq
  have hp₁ := hjoined.sound
  have hp₂ := hp₁.absorb joined (p.neighbourFrom offset)
  obtain ⟨hstart₁, hend₁⟩ := p.absorb_grows ⟨offset, size⟩ (p.neighbourBefore offset)
  obtain ⟨hstart₂, hend₂⟩ := p₁.absorb_grows joined (p.neighbourFrom offset)
  rw [hfirst] at hstart₁ hend₁
  rw [hsecond] at hstart₂ hend₂ hp₂
  simp only [Segment.finish] at hstart₁ hend₁ hstart₂ hend₂
  have hrest : ∀ t ∈ p₂.segments, t ∈ p.segments := by
    intro t ht
    have ht₁ : t ∈ p₁.segments :=
      mem_of_mem_absorb (s := joined) hp₁.toIndexed (by rw [hsecond]; exact ht)
    exact mem_of_mem_absorb (s := ⟨offset, size⟩) h.toIndexed (by rw [hfirst]; exact ht₁)
  -- the first byte of the range was in use
  have hnew : merged ∉ p.segments := by
    intro hmem
    have hin : offset ∈ Finset.Ico offset (offset + size) :=
      Finset.mem_Ico.2 ⟨Nat.le_refl _, by omega⟩
    refine Finset.disjoint_left.1 hdisjoint hin (mem_bytes.2 ⟨merged, hmem, ?_⟩)
    unfold Segment.finish
    omega
  have hmem := @mem_segments_insert p₂ merged hp₂.toIndexed hjoined.insert.toIndexed
  refine ⟨merged, by omega, by unfold Segment.finish; omega, hnew, hmem.2 (.inl rfl), ?_, ?_, ?_⟩
  · intro t ht
    exact (hmem.1 ht).imp_right (hrest t)
  · refine ⟨p₂.nextSlot, ?_, ?_⟩
    · rw [segmentAt_insert hp₂.toIndexed, if_pos rfl]
    · rw [stack_insert, if_pos rfl]
      rfl
  · intro births ha
    have ha₁ := ha.absorb h.toIndexed ⟨offset, size⟩ (p.neighbourBefore offset)
    rw [hfirst] at ha₁
    have ha₂ := ha₁.absorb hp₁.toIndexed joined (p.neighbourFrom offset)
    rw [hsecond] at ha₂
    exact ha₂.insert hp₂.toIndexed hjoined.insert.toIndexed fun hmem => hnew (hrest merged hmem)

/-! ## What a cut creates -/

theorem mem_segments_fill {start finish : Nat} {t : Segment} (h : Sound p)
    (hi : Sound (p.fill start finish)) :
    t ∈ (p.fill start finish).segments ↔ t ∈ Segment.between start finish ∨ t ∈ p.segments := by
  unfold fill Segment.between at *
  split
  · next hlt =>
    rw [if_pos hlt] at hi
    rw [mem_segments_insert h.toIndexed hi.toIndexed, List.mem_singleton]
  · rw [List.mem_nil_iff, false_or]

/-- Filling in a new range makes it the youngest. -/
theorem Aged.fill {start finish : Nat} (ha : Aged p births) (h : Sound p)
    (hi : Sound (p.fill start finish)) (hnew : ∀ t ∈ Segment.between start finish, t ∉ p.segments) :
    Aged (p.fill start finish) (Segment.between start finish ++ births) := by
  unfold Pool.fill Segment.between at *
  split
  · next hlt =>
    rw [if_pos hlt] at hi hnew
    exact ha.insert h.toIndexed hi.toIndexed (hnew _ (List.mem_singleton.2 rfl))
  · exact ha

/-- A proper part of a free segment is no free segment. -/
theorem not_mem_of_part {start finish : Nat} {t : Segment} (h : Sound p) (hs : s ∈ p.segments)
    (hstart : s.position ≤ start) (hfinish : finish ≤ s.finish)
    (hproper : s.position < start ∨ finish < s.finish) (ht : t ∈ Segment.between start finish) :
    t ∉ p.segments := by
  obtain ⟨hlt, rfl, rfl⟩ := Segment.mem_between.1 ht
  intro hmem
  rcases eq_or_finish_lt h hs hmem hstart with rfl | hpast
  · omega
  · omega

/-- A cut takes the segment out and creates what is left of it, first the head and then the tail. -/
structure Parted (p : Pool) (slot : Nat) (s : Segment) (offset size : Nat) : Prop where
  new : ∀ t ∈ Segment.between s.position offset ++ Segment.between (offset + size) s.finish,
    t ∉ p.segments
  mem : ∀ t, t ∈ (p.cut slot s offset size).segments ↔
    t ∈ Segment.between s.position offset ++ Segment.between (offset + size) s.finish ∨
      t ∈ p.segments ∧ t ≠ s
  aged : ∀ births, Aged p births → Aged (p.cut slot s offset size)
    (Segment.between (offset + size) s.finish ++ (Segment.between s.position offset ++ births))

theorem parted (h : Sound p) (hs : p.segmentAt slot = some s) (hsize : 0 < size)
    (hposition : s.position ≤ offset) (hfinish : offset + size ≤ s.finish) :
    Parted p slot s offset size := by
  have hmem := (mem_segments h.toIndexed).2 ⟨slot, hs⟩
  obtain ⟨hhead, -, -⟩ := head_spec h hs offset (by omega)
  obtain ⟨hcut, -⟩ := cut_spec h hs hsize hposition hfinish
  have hrest := h.remove slot
  have hold : ∀ t ∈ (p.remove slot).segments, t ∈ p.segments := fun t ht =>
    ((mem_segments_remove h.toIndexed hs).1 ht).1
  have hheadNew : ∀ t ∈ Segment.between s.position offset, t ∉ p.segments := fun t ht =>
    not_mem_of_part h hmem (Nat.le_refl _) (by omega) (.inr (by omega)) ht
  have htailNew : ∀ t ∈ Segment.between (offset + size) s.finish, t ∉ p.segments := fun t ht =>
    not_mem_of_part h hmem (by omega) (Nat.le_refl _) (.inl (by omega)) ht
  refine ⟨?_, ?_, ?_⟩
  · intro t ht
    rcases List.mem_append.1 ht with ht | ht
    · exact hheadNew t ht
    · exact htailNew t ht
  · intro t
    rw [cut, mem_segments_fill hhead hcut, mem_segments_fill hrest hhead,
      mem_segments_remove h.toIndexed hs, List.mem_append]
    tauto
  · intro births ha
    have haHead := (ha.remove h.toIndexed slot).fill hrest hhead fun t ht hmem =>
      hheadNew t ht (hold t hmem)
    refine haHead.fill hhead hcut fun t ht hmem => ?_
    rcases (mem_segments_fill hrest hhead).1 hmem with hin | hin
    · obtain ⟨-, hstart, -⟩ := Segment.mem_between.1 ht
      obtain ⟨hlt, hstart', -⟩ := Segment.mem_between.1 hin
      omega
    · exact htailNew t ht (hold t hin)

/-! ## Histories -/

/-- The segments that a request creates: those listed after it and not before, the last one first.
Of two in one request the one further ahead is the last. -/
def created (p : Pool) (request : Request) : List Segment :=
  ((p.serve request).segments.filter fun s => decide (s ∉ p.segments)).reverse

/-- The segments created so far, the last one first, after the requests. -/
def birthsOver (p : Pool) (births : List Segment) : List Request → List Segment
  | [] => births
  | request :: rest => (p.serve request).birthsOver (p.created request ++ births) rest

theorem created_eq {request : Request} {l : List Segment} (h : Sound (p.serve request))
    (hl : l.Pairwise fun s t => s.finish < t.position)
    (hmem : ∀ s, s ∈ l ↔ s ∈ (p.serve request).segments ∧ s ∉ p.segments) :
    p.created request = l.reverse := by
  unfold created
  congr 1
  refine eq_of_sorted (h.segments_sorted.sublist List.filter_sublist) hl fun s => ?_
  rw [List.mem_filter, decide_eq_true_eq, hmem]

theorem created_unchanged {request : Request} (h : p.serve request = p) :
    p.created request = [] := by
  unfold created
  rw [h, List.reverse_eq_nil_iff, List.filter_eq_nil_iff]
  intro s hs
  simpa using hs

theorem created_release (h : Sound p) (hq : p.release offset size = .ok q)
    (hm : Merged p q offset size s) : p.created (.release offset size) = [s] := by
  have hserve : p.serve (.release offset size) = q := by simp only [serve, hq]
  apply created_eq (h.serve _) (List.pairwise_singleton _ s)
  intro t
  rw [hserve, List.mem_singleton]
  constructor
  · rintro rfl
    exact ⟨hm.free, hm.new⟩
  · rintro ⟨ht, hnew⟩
    exact (hm.rest t ht).resolve_right hnew

/-- A cut creates the tail last. -/
theorem created_cut {request : Request} (h : Sound p) (hs : p.segmentAt slot = some s)
    (hsize : 0 < size) (hposition : s.position ≤ offset) (hfinish : offset + size ≤ s.finish)
    (hserve : p.serve request = p.cut slot s offset size) :
    p.created request =
      Segment.between (offset + size) s.finish ++ Segment.between s.position offset := by
  have hparted := parted h hs hsize hposition hfinish
  have hsorted : (Segment.between s.position offset ++
      Segment.between (offset + size) s.finish).Pairwise fun s t => s.finish < t.position := by
    refine List.pairwise_append.2 ⟨?_, ?_, ?_⟩
    · exact Segment.between_sorted _ _
    · exact Segment.between_sorted _ _
    · intro t ht u hu
      obtain ⟨-, -, hend⟩ := Segment.mem_between.1 ht
      obtain ⟨-, hstart, -⟩ := Segment.mem_between.1 hu
      omega
  rw [created_eq (h.serve request) hsorted, List.reverse_append, Segment.reverse_between,
    Segment.reverse_between]
  intro t
  rw [hserve, hparted.mem]
  constructor
  · intro ht
    exact ⟨.inl ht, hparted.new t ht⟩
  · rintro ⟨ht | ⟨ht, -⟩, hnew⟩
    · exact ht
    · exact absurd ht hnew

/-- What an allocation leaves of the best fit is created by it. -/
theorem created_allocate (h : Sound p) (ha : p.allocate size = some (offset, q))
    (hs : p.segmentAt slot = some s) (hfits : size ≤ s.size) (hposition : s.position = offset)
    (hq : q = p.cut slot s offset size) :
    p.created (.allocate size) = Segment.between (offset + size) s.finish := by
  have hserve : p.serve (.allocate size) = p.cut slot s offset size := by
    simp only [serve, ha, hq]
  have hfinish : offset + size ≤ s.finish := by
    rw [← hposition]
    exact Nat.add_le_add_left hfits _
  rw [created_cut h hs (allocate_some h ha).1 (Nat.le_of_eq hposition) hfinish hserve, hposition,
    Segment.between_self, List.append_nil]

/-- A request makes what it creates the youngest, and leaves the age of the others. -/
theorem Aged.serve (ha : Aged p births) (h : Sound p) (request : Request) :
    Aged (p.serve request) (p.created request ++ births) := by
  -- a request that is refused leaves no trace, and neither does taking out an empty range
  have refused : p.serve request = p → Aged (p.serve request) (p.created request ++ births) := by
    intro hserve
    rw [created_unchanged hserve, hserve]
    exact ha
  cases request with
  | release offset size =>
    cases hq : p.release offset size with
    | error f => exact refused (by simp only [Pool.serve, hq])
    | ok q =>
      obtain ⟨s, hm⟩ := release_merged h hq
      rw [created_release h hq hm]
      simp only [Pool.serve, hq]
      exact hm.aged births ha
  | allocate size =>
    cases hq : p.allocate size with
    | none => exact refused (by simp only [Pool.serve, hq])
    | some found =>
      obtain ⟨offset, q⟩ := found
      obtain ⟨hsize, slot, s, hfit, hs, rfl, rfl⟩ := allocate_best h hq
      have hfinish : s.position + size ≤ s.finish := Nat.add_le_add_left hfit.fits _
      rw [created_allocate h hq hs.1 hfit.fits rfl rfl]
      simp only [Pool.serve, hq]
      have haged := (parted h hs.1 hsize (Nat.le_refl _) hfinish).aged births ha
      rwa [Segment.between_self, List.nil_append] at haged
  | take offset size =>
    cases hq : p.take offset size with
    | error f => exact refused (by simp only [Pool.serve, hq])
    | ok q =>
      rcases take_cases h hq with ⟨-, rfl⟩ | ⟨hsize, slot, s, hs, hposition, hfinish, rfl⟩
      · exact refused (by simp only [Pool.serve, hq])
      · have hserve : p.serve (.take offset size) = p.cut slot s offset size := by
          simp only [Pool.serve, hq]
        rw [created_cut h hs hsize hposition hfinish hserve, hserve, List.append_assoc]
        exact (parted h hs hsize hposition hfinish).aged births ha

theorem Aged.run (ha : Aged p births) (h : Sound p) (requests : List Request) :
    Aged (p.run requests) (p.birthsOver births requests) := by
  induction requests generalizing p births with
  | nil => exact ha
  | cons request rest ih => exact ih (ha.serve h request) (h.serve request)

/-- On top of its stack lies the youngest segment of a size. -/
theorem Aged.youngest_of_top (ha : Aged p births) (h : Sound p) (htop : p.OnTop slot s)
    {t : Segment} (ht : t ∈ p.segments) (hsame : t.size = s.size) (hne : t ≠ s) :
    births.idxOf s < births.idxOf t := by
  obtain ⟨other, hother⟩ := (mem_segments h.toIndexed).1 ht
  have hstack : other ∈ p.stack s.size := (h.stack_iff _ _).2 ⟨t, hother, hsame⟩
  obtain ⟨below, hbelow⟩ := List.head?_eq_some_iff.1 htop.2
  have hyounger := ha.younger s.size
  rw [hbelow] at hstack hyounger
  rcases List.mem_cons.1 hstack with rfl | hmem
  · rw [htop.1] at hother
    exact absurd (Option.some.inj hother).symm hne
  · exact (List.pairwise_cons.1 hyounger).1 other hmem s t htop.1 hother

/-- Best fit, and the youngest among equals. After every run of requests from the empty pool, met
or not: an allocation fails exactly if nothing was asked for or no free segment fits; else it hands
out the head of a smallest segment that fits, and among those of its size the one created last. A
release creates one segment, the range joined with what it touches; an allocation creates what it
leaves of the segment; taking out a range creates the head that is left and then the tail; what
changes nothing creates nothing. -/
theorem best_fit_newest_first (requests : List Request) :
    let p := empty.run requests
    let births := empty.birthsOver [] requests
    (∀ size, p.allocate size = none ↔ size = 0 ∨ ∀ s ∈ p.segments, s.size < size) ∧
    (∀ size offset q, p.allocate size = some (offset, q) →
      ∃ s ∈ p.segments, s.position = offset ∧ size ≤ s.size ∧
        (∀ t ∈ p.segments, size ≤ t.size → s.size ≤ t.size) ∧
        (∀ t ∈ p.segments, t.size = s.size → t ≠ s → births.idxOf s < births.idxOf t) ∧
        p.created (.allocate size) = Segment.between (offset + size) s.finish) ∧
    (∀ s ∈ p.segments, s ∈ births) ∧
    (∀ offset size q, p.release offset size = .ok q →
      ∃ s ∈ q.segments, s.position ≤ offset ∧ offset + size ≤ s.finish ∧
        (∀ t ∈ q.segments, t = s ∨ t ∈ p.segments) ∧ p.created (.release offset size) = [s]) ∧
    (∀ offset size q, p.take offset size = .ok q → 0 < size →
      ∃ s ∈ p.segments, s.position ≤ offset ∧ offset + size ≤ s.finish ∧
        p.created (.take offset size) =
          Segment.between (offset + size) s.finish ++ Segment.between s.position offset) ∧
    ∀ request, p.serve request = p → p.created request = [] := by
  intro p births
  have h : Sound p := sound_empty.run requests
  have ha : Aged p births := Aged.empty.run sound_empty requests
  refine ⟨fun size => allocate_none_iff h, ?_, ha.born, ?_, ?_, fun _ => created_unchanged⟩
  · intro size offset q hq
    obtain ⟨-, slot, s, hfit, htop, hposition, hcut⟩ := allocate_best h hq
    exact ⟨s, hfit.free, hposition, hfit.fits, hfit.least,
      fun t ht hsame hne => ha.youngest_of_top h htop ht hsame hne,
      created_allocate h hq htop.1 hfit.fits hposition hcut⟩
  · intro offset size q hq
    obtain ⟨s, hm⟩ := release_merged h hq
    exact ⟨s, hm.free, hm.position_le, hm.le_finish, hm.rest, created_release h hq hm⟩
  · intro offset size q hq hsize
    rcases take_cases h hq with ⟨hzero, -⟩ | ⟨-, slot, s, hs, hposition, hfinish, hcut⟩
    · omega
    · have hserve : p.serve (.take offset size) = p.cut slot s offset size := by
        simp only [serve, hq, hcut]
      exact ⟨s, (mem_segments h.toIndexed).2 ⟨slot, hs⟩, hposition, hfinish,
        created_cut h hs hsize hposition hfinish hserve⟩

/-- Of two segments of one size the one released last is taken, though its slot is the older. -/
example :
    let requests := [.release 0 4, .release 10 4, .take 0 4, .release 20 4]
    ((empty.run requests).allocate 4).map Prod.fst = some 20 := by decide

/-! ## Taking the same range again -/

/-- A range that came from the pool and is released is whole again with what it was cut from, and
the same request takes it. -/
theorem reuse_of_taken {r : Pool} (h : Sound p) (ha : p.allocate size = some (offset, q))
    (hr : q.release offset size = .ok r) :
    r.segments = p.segments ∧ ∃ q', r.allocate size = some (offset, q') := by
  obtain ⟨hsize, hfree, hq, hbytes⟩ := allocate_some h ha
  obtain ⟨hrs, hbytes'⟩ := release_ok hq hr
  have hsegments : r.segments = p.segments := by
    apply segments_eq_of_bytes_eq hrs h
    rw [hbytes', hbytes, Finset.sdiff_union_of_subset hfree]
  obtain ⟨-, -, best, hfit, -, hposition, -⟩ := allocate_best h ha
  obtain ⟨s, hm⟩ := release_merged hq hr
  -- the joined segment and the one that was cut hold the same byte
  have hs : s = best := by
    have hle := hm.position_le
    have hend := hm.le_finish
    rcases eq_or_finish_lt h (hsegments ▸ hm.free) hfit.free (by omega) with heq | hlt
    · exact heq
    · omega
  subst hs
  obtain ⟨slot, htop⟩ := hm.top
  have hfit' : r.SmallestFit size s :=
    ⟨hm.free, hfit.fits, fun t ht => hfit.least t (hsegments ▸ ht)⟩
  obtain ⟨q', hq'⟩ := allocate_of_top hrs hsize hfit' htop
  exact ⟨hsegments, q', by rw [hq', hposition]⟩

/-- A range that no free segment had room for is, once released, part of the only one that fits. -/
theorem reuse_of_missed (h : Sound p) (hsize : 0 < size) (ha : p.allocate size = none)
    (hq : p.release offset size = .ok q) :
    ∃ s ∈ q.segments, s.contains offset = true ∧ ∃ q', q.allocate size = some (s.position, q') := by
  obtain ⟨s, hm⟩ := release_merged h hq
  have hle := hm.position_le
  have hend := hm.le_finish
  have hfits : size ≤ s.size := by
    unfold Segment.finish at hend
    omega
  have hfit : q.SmallestFit size s := by
    refine ⟨hm.free, hfits, fun t ht hlarge => ?_⟩
    rcases hm.rest t ht with rfl | hold
    · exact Nat.le_refl _
    · exact absurd hlarge (Nat.not_le.2 (lt_of_missed h hsize ha t hold))
  obtain ⟨slot, htop⟩ := hm.top
  refine ⟨s, hm.free, ?_, allocate_of_top (release_ok h hq).1 hsize hfit htop⟩
  rw [Segment.contains, Bool.and_eq_true, decide_eq_true_eq, decide_eq_true_eq]
  omega

end Pool

end SpillStorage
