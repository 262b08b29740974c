import SpillStorage.Space.Batch
import SpillStorage.Proofs.Pool.Canonical
import SpillStorage.Proofs.Chain.Windows
import SpillStorage.Proofs.Space.Growth
import SpillStorage.Proofs.Space.Sound

/-!
Batches as sets of bytes.

What is proved:
  1. `carve_spec`: carving never fails. The regions are apart from each other, and with what is left
     in the pool they make up the bytes that were free before.
  2. `returnRegions_spec`: to return the regions gives the free bytes back.
  3. `allocateBatch_cases`: what a batch does, in three cases.
  4. `allocateBatch_restores`: a batch that fails shows the segments and counts of before.

Carving works on a list of segments taken before it begins. What carries it is that the segments
still to come are free all the while: a step takes bytes of its own segment only.
-/

namespace SpillStorage

/-- The bytes of a region. -/
def Region.bytes (r : Region) : Finset Nat := Finset.Ico r.offset (r.offset + r.size)

theorem Region.mem_bytes {r : Region} {x : Nat} :
    x ∈ r.bytes ↔ r.offset ≤ x ∧ x < r.offset + r.size := Finset.mem_Ico

namespace Space

/-! ## Carving -/

/-- The regions and what is left free make up the bytes that a pool had free. -/
structure Carved (p free : Pool) (regions : List Region) : Prop where
  sound : free.Sound
  nonempty : ∀ r ∈ regions, 0 < r.size
  disjoint : regions.Pairwise fun r t => Disjoint r.bytes t.bytes
  taken : ∀ r ∈ regions, Disjoint r.bytes free.bytes
  mem_iff : ∀ x, x ∈ p.bytes ↔ x ∈ free.bytes ∨ ∃ r ∈ regions, x ∈ r.bytes

theorem carved_nil {p : Pool} (h : p.Sound) : Carved p p [] :=
  ⟨h, by simp, .nil, by simp, by simp⟩

theorem Carved.subset {p free : Pool} {regions : List Region} (h : Carved p free regions) :
    free.bytes ⊆ p.bytes := fun _ hx => (h.mem_iff _).2 (.inl hx)

/-- One more region taken out of what is left. -/
theorem Carved.take {p : Pool} {c : Carving} (h : Carved p c.free c.regions.toList)
    {offset size : Nat} (hsize : 0 < size)
    (hsub : Finset.Ico offset (offset + size) ⊆ c.free.bytes) :
    ∃ c', c.take offset size = .ok c' () ∧ Carved p c'.free c'.regions.toList ∧
      c'.free.bytes = c.free.bytes \ Finset.Ico offset (offset + size) := by
  obtain ⟨free, htake⟩ := Pool.exists_take h.sound hsub
  obtain ⟨hfree, hbytes⟩ := Pool.take_ok h.sound htake
  refine ⟨⟨free, c.regions.push ⟨offset, size⟩⟩, by rw [Carving.take, htake], ?_, hbytes⟩
  simp only [Array.toList_push]
  refine ⟨hfree, ?_, ?_, ?_, fun x => ?_⟩
  · intro r hr
    rcases List.mem_append.1 hr with hr | hr
    · exact h.nonempty r hr
    · rw [List.mem_singleton.1 hr]
      exact hsize
  · refine List.pairwise_append.2 ⟨h.disjoint, List.pairwise_singleton _ _, ?_⟩
    intro r hr t ht
    rw [List.mem_singleton.1 ht]
    exact (h.taken r hr).mono_right hsub
  · intro r hr
    rw [hbytes]
    rcases List.mem_append.1 hr with hr | hr
    · exact (h.taken r hr).mono_right Finset.sdiff_subset
    · rw [List.mem_singleton.1 hr]
      exact Finset.disjoint_sdiff
  -- what was taken goes from the free bytes to the last region; together they hold the same bytes
  · rw [h.mem_iff, hbytes]
    simp only [Finset.mem_sdiff, List.mem_append, List.mem_singleton]
    constructor
    · rintro (hx | ⟨r, hr, hx⟩)
      · by_cases hin : x ∈ Finset.Ico offset (offset + size)
        · exact .inr ⟨_, .inr rfl, hin⟩
        · exact .inl ⟨hx, hin⟩
      · exact .inr ⟨r, .inl hr, hx⟩
    · rintro (⟨hx, -⟩ | ⟨r, hr | rfl, hx⟩)
      · exact .inl hx
      · exact .inr ⟨r, hr, hx⟩
      · exact .inl (hsub hx)

/-- What carving does in `[start, limit)`: it succeeds and takes bytes from there only. -/
def CarvesWithin (p : Pool) (start limit : Nat) (c : Carving) (o : Outcome Carving Unit) : Prop :=
  ∃ c', o = .ok c' () ∧ Carved p c'.free c'.regions.toList ∧
    ∀ x ∈ c.free.bytes, x < start ∨ limit ≤ x → x ∈ c'.free.bytes

theorem carvesWithin_ok {p : Pool} {c : Carving} (h : Carved p c.free c.regions.toList)
    (start limit : Nat) : CarvesWithin p start limit c (.ok c ()) :=
  ⟨c, rfl, h, fun _ hx _ => hx⟩

/-- Taking one region of a free range, and going on after it. -/
theorem carvesWithin_take {p : Pool} {start limit place size : Nat} {c : Carving}
    (h : Carved p c.free c.regions.toList) (hsize : 0 < size)
    (hsub : Finset.Ico start limit ⊆ c.free.bytes) (hstart : start ≤ place)
    (hlimit : place + size ≤ limit) {next : Carving → Unit → Outcome Carving Unit}
    (hnext : ∀ c', Carved p c'.free c'.regions.toList →
      Finset.Ico (place + size) limit ⊆ c'.free.bytes →
        CarvesWithin p (place + size) limit c' (next c' ())) :
    CarvesWithin p start limit c ((c.take place size).andThen next) := by
  obtain ⟨c₁, htake, hc₁, hbytes⟩ := h.take hsize
    ((Finset.Ico_subset_Ico hstart hlimit).trans hsub)
  have hkept : ∀ x ∈ c.free.bytes, x < place ∨ place + size ≤ x → x ∈ c₁.free.bytes := by
    intro x hx hout
    rw [hbytes, Finset.mem_sdiff, Finset.mem_Ico]
    exact ⟨hx, by omega⟩
  obtain ⟨c₂, heq, hc₂, hrest⟩ := hnext c₁ hc₁ fun x hx => by
    rw [Finset.mem_Ico] at hx
    exact hkept x (hsub (Finset.mem_Ico.2 ⟨by omega, hx.2⟩)) (.inr hx.1)
  refine ⟨c₂, by rw [htake, Outcome.andThen_ok, heq], hc₂, ?_⟩
  intro x hx hout
  exact hrest x (hkept x hx (by omega)) (by omega)

theorem succ_lt_bound {p : Pool} (h : p.Sound) {x : Nat} (hx : x ∈ p.bytes) :
    x + 1 < Offset.bound := by
  obtain ⟨s, hs, -, hlt⟩ := Pool.mem_bytes.1 hx
  obtain ⟨slot, hslot⟩ := (Pool.mem_segments h.toIndexed).1 hs
  have := h.bounded _ _ hslot
  omega

/-- A window that is found lies where it was looked for. -/
theorem findMemory?_within {p : Pool} (h : p.Sound) {chain : Chain} (hchain : chain.Joint)
    {start limit size place : Nat} (hsize : 0 < size) (hsub : Finset.Ico start limit ⊆ p.bytes)
    (hle : start + size ≤ limit) (hfound : chain.findMemory? start limit size = some place) :
    start ≤ place ∧ place + size ≤ limit := by
  have hlast : limit - 1 ∈ p.bytes := hsub (Finset.mem_Ico.2 ⟨by omega, by omega⟩)
  have hlimit := succ_lt_bound h hlast
  have hleast := hchain.findMemory?_leastOf hsize (by omega : limit < Offset.bound) start
  obtain ⟨⟨hge, hend, -⟩, -⟩ := (hleast.eq_some_iff place).1 hfound
  exact ⟨hge, hend⟩

theorem carveWhole_spec {p : Pool} {chain : Chain} (hchain : chain.Joint) {size limit : Nat}
    (hsize : 0 < size)
    (wanted start : Nat) (c : Carving) (h : Carved p c.free c.regions.toList)
    (hsub : Finset.Ico start limit ⊆ c.free.bytes) :
    CarvesWithin p start limit c (carveWhole chain size limit wanted start c) := by
  induction wanted generalizing start c with
  | zero => exact carvesWithin_ok h start limit
  | succ wanted ih =>
    unfold carveWhole
    split
    · next hle =>
      have hplace : start ≤ (chain.findMemory? start limit size).getD start ∧
          (chain.findMemory? start limit size).getD start + size ≤ limit := by
        cases hfound : chain.findMemory? start limit size with
        | none => exact ⟨Nat.le_refl _, hle⟩
        | some found => exact findMemory?_within h.sound hchain hsize hsub hle hfound
      exact carvesWithin_take h hsize hsub hplace.1 hplace.2 fun c' hc' hsub' => ih _ c' hc' hsub'
    · exact carvesWithin_ok h start limit

theorem carveRest_spec {p : Pool} {least greatest limit : Nat} (hleast : 0 < least)
    (hle : least ≤ greatest) (wanted start : Nat) (c : Carving)
    (h : Carved p c.free c.regions.toList) (hsub : Finset.Ico start limit ⊆ c.free.bytes) :
    CarvesWithin p start limit c (carveRest least greatest limit wanted start c) := by
  induction wanted generalizing start c with
  | zero => exact carvesWithin_ok h start limit
  | succ wanted ih =>
    unfold carveRest
    split
    · exact carvesWithin_take h (by omega) hsub (Nat.le_refl _) (by omega)
        fun c' hc' hsub' => ih _ c' hc' hsub'
    · exact carvesWithin_ok h start limit

theorem carveEach_spec {p : Pool} (count : Nat)
    {carve : Segment → Nat → Carving → Outcome Carving Unit}
    (hcarve : ∀ segment wanted c, Carved p c.free c.regions.toList → segment.bytes ⊆ c.free.bytes →
      CarvesWithin p segment.position segment.finish c (carve segment wanted c))
    (segments : List Segment) (hsorted : segments.Pairwise fun s t => s.finish < t.position)
    (c : Carving) (h : Carved p c.free c.regions.toList)
    (hsub : ∀ s ∈ segments, s.bytes ⊆ c.free.bytes) :
    ∃ c', carveEach count carve segments c = .ok c' () ∧
      Carved p c'.free c'.regions.toList := by
  induction segments generalizing c with
  | nil => exact ⟨c, rfl, h⟩
  | cons segment rest ih =>
    obtain ⟨hfirst, hrest⟩ := List.pairwise_cons.1 hsorted
    obtain ⟨c₁, heq, hc₁, hkept⟩ := hcarve segment (count - c.regions.size) c h
      (hsub segment (List.mem_cons_self ..))
    -- the segments still to come start past the end of this one
    have hsub₁ : ∀ s ∈ rest, s.bytes ⊆ c₁.free.bytes := by
      intro s hs x hx
      have := hfirst s hs
      refine hkept x (hsub s (List.mem_cons_of_mem _ hs) hx) (.inr ?_)
      rw [Segment.mem_bytes] at hx
      omega
    obtain ⟨c₂, heq₂, hc₂⟩ := ih hrest c₁ hc₁ hsub₁
    exact ⟨c₂, by rw [carveEach, heq, Outcome.andThen_ok, heq₂], hc₂⟩

theorem segmentsFrom_sorted {free : Pool} (h : free.Sound) (size : Nat) :
    (segmentsFrom free size).Pairwise fun s t => s.finish < t.position :=
  h.segments_sorted.filter _

theorem segmentsFrom_bytes {free : Pool} {size : Nat} :
    ∀ s ∈ segmentsFrom free size, s.bytes ⊆ free.bytes :=
  fun _ hs => Pool.segment_bytes_subset (List.mem_filter.1 hs).1

/-- Carving succeeds, whatever the pool holds. -/
theorem carve_spec {p : Pool} (h : p.Sound) {chain : Chain}
    (hchain : chain.Joint) (count : Nat) {size least greatest : Nat} (hsize : 0 < size)
    (hleast : 0 < least) (hle : least ≤ greatest) :
    ∃ c, carve chain p count size least greatest = .ok c () ∧
      Carved p c.free c.regions.toList := by
  obtain ⟨c₁, heq₁, hc₁⟩ := carveEach_spec count
    (fun segment wanted c hc hsub => carveWhole_spec hchain hsize wanted segment.position c hc hsub)
    (segmentsFrom p size) (segmentsFrom_sorted h size) ⟨p, #[]⟩ (carved_nil h) segmentsFrom_bytes
  unfold carve
  rw [heq₁, Outcome.andThen_ok]
  split
  · exact carveEach_spec count
      (fun segment wanted c hc hsub => carveRest_spec hleast hle wanted segment.position c hc hsub)
      (segmentsFrom c₁.free least) (segmentsFrom_sorted hc₁.sound least) c₁ hc₁ segmentsFrom_bytes
  · exact ⟨c₁, rfl, hc₁⟩

/-! ## Returning what was carved -/

/-- The regions can be returned, and what was free before is free again. -/
theorem returnRegions_spec {p : Pool} (hp : p.Sound) (regions : List Region) (free : Pool)
    (h : Carved p free regions) :
    ∃ q, returnRegions free regions = .ok q () ∧ q.Sound ∧ q.bytes = p.bytes := by
  induction regions generalizing free with
  | nil =>
    refine ⟨free, rfl, h.sound, ?_⟩
    ext x
    simp [h.mem_iff x]
  | cons r rest ih =>
    have hsize := h.nonempty r (List.mem_cons_self ..)
    -- a region lies in the pool there was, so its end is an offset and the pool takes it back
    have hlast : r.offset + r.size - 1 ∈ p.bytes :=
      (h.mem_iff _).2 (.inr ⟨r, List.mem_cons_self .., by rw [Region.mem_bytes]; omega⟩)
    have hbound := succ_lt_bound hp hlast
    obtain ⟨q, hq⟩ := (Pool.release_iff h.sound _ _).2
      ⟨hsize, by omega, h.taken r (List.mem_cons_self ..)⟩
    obtain ⟨hqs, hbytes⟩ := Pool.release_ok h.sound hq
    obtain ⟨hfirst, hrest⟩ := List.pairwise_cons.1 h.disjoint
    have hcarved : Carved p q rest := by
      refine ⟨hqs, fun t ht => h.nonempty t (List.mem_cons_of_mem _ ht), hrest, ?_, ?_⟩
      · intro t ht
        rw [hbytes, Finset.disjoint_union_right]
        exact ⟨h.taken t (List.mem_cons_of_mem _ ht), (hfirst t ht).symm⟩
      · intro x
        rw [h.mem_iff x, hbytes, Finset.mem_union, List.exists_mem_cons_iff, or_assoc]
        rfl
    obtain ⟨q', heq, hq', hbytes'⟩ := ih q hcarved
    refine ⟨q', ?_, hq', hbytes'⟩
    rw [returnRegions, hq]
    exact heq

/-! ## The batch -/

/-- A batch fails with the free bytes as they were, is served from the pool alone, or takes what the
pool has and lengthens the space by the rest. -/
theorem allocateBatch_cases {s : Space} (hs : s.Sound) (h : Host) (count least greatest : Nat) :
    (∃ free f, free.Sound ∧ free.bytes = s.free.bytes ∧
      s.allocateBatch h count least greatest = .fail ({ s with free := free }, h) f) ∨
    (∃ free regions, Carved s.free free regions ∧
      s.allocateBatch h count least greatest = .ok ({ s with free := free }, h) regions) ∨
    ∃ free regions size missing s' h', Carved s.free free regions ∧ 0 < size ∧
      Space.extend { s with free := free } h (size * missing) = .ok (s', h') () ∧
      s.allocateBatch h count least greatest =
        .ok (s', h') (regions ++ tail s.logicalSize size missing) := by
  unfold allocateBatch
  split
  · exact .inr (.inl ⟨s.free, [], carved_nil hs.pool, rfl⟩)
  · split
    · exact .inl ⟨s.free, _, hs.pool, rfl, rfl⟩
    · next hsizes =>
      simp only
      cases hproduct : Offset.product? (s.preferredSize count least greatest) count with
      | none => exact .inl ⟨s.free, _, hs.pool, rfl, rfl⟩
      | some total =>
        have hsize : 0 < s.preferredSize count least greatest := by
          unfold preferredSize
          omega
        have hleast : 0 < least := by omega
        have hle : least ≤ greatest := by omega
        obtain ⟨c, hcarve, hc⟩ := carve_spec hs.pool hs.layout.joint count hsize hleast hle
        simp only [hcarve, Outcome.ok, completeBatch]
        split
        · exact .inr (.inl ⟨c.free, c.regions.toList, hc, rfl⟩)
        · rcases Space.extend_cases { s with free := c.free } h
              (s.preferredSize count least greatest * (count - c.regions.toList.length)) with
            ⟨f, heq⟩ | hgrown
            -- the space cannot grow: what was carved goes back
          · obtain ⟨q, hreturn, hq, hbytes⟩ := returnRegions_spec hs.pool _ _ hc
            refine .inl ⟨q, f, hq, hbytes, ?_⟩
            simp only [heq, Outcome.fail, hreturn, Outcome.ok]
          · refine .inr (.inr ⟨c.free, c.regions.toList, s.preferredSize count least greatest,
              count - c.regions.toList.length, ?_⟩)
            rcases hgrown with ⟨-, heq⟩ | ⟨-, -, -, heq⟩ | ⟨amount, s', h', -, -, heq⟩
            all_goals
              refine ⟨_, _, hc, hsize, heq, ?_⟩
              simp only [heq, Outcome.ok]

/-- A batch that fails leaves space and host as they were, and a pool that shows what the old one
did. The slots behind its segments may be others. -/
theorem allocateBatch_restores {s : Space} (hs : s.Sound) {h : Host} {count least greatest : Nat}
    {f : Failure} (hfailed : (s.allocateBatch h count least greatest).answer = .error f) :
    ∃ free : Pool, (s.allocateBatch h count least greatest).state = ({ s with free := free }, h) ∧
      free.segments = s.free.segments ∧ free.freeBytes = s.free.freeBytes ∧
        free.count = s.free.count ∧ free.largest = s.free.largest := by
  rcases allocateBatch_cases hs h count least greatest with
    ⟨free, f', hfree, hbytes, heq⟩ | ⟨free, regions, -, heq⟩ |
      ⟨free, regions, size, missing, s', h', -, -, -, heq⟩
  · have hsegments := Pool.segments_eq_of_bytes_eq hfree hs.pool hbytes
    refine ⟨free, by rw [heq]; rfl, hsegments, ?_, ?_, ?_⟩
    · rw [← hfree.card_bytes, ← hs.pool.card_bytes, hbytes]
    · rw [Pool.count_eq hfree, Pool.count_eq hs.pool, hsegments]
    · rw [Pool.largest_eq hfree, Pool.largest_eq hs.pool, hsegments]
  all_goals
    rw [heq] at hfailed
    cases hfailed

end Space

end SpillStorage
