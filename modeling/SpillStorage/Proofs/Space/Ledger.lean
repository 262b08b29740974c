import SpillStorage.Proofs.Space.Change

/-!
Who holds which bytes of a space.

What is proved:
  1. `extend_obtains`, `allocate_obtains` and `allocateBatch_obtains`: what an operation hands out
     was not in use before, and is all that is in use afterwards beside what was.
  2. `Ledger.run_sound`: after any run the bytes in use are the bytes handed out and not returned.
  3. `handed_out_once`: both together, for every run on a new space.

A request of a run names the host that it meets. Other spaces may have changed it in any way since
the request before, so nothing is assumed about it.
-/

namespace SpillStorage

namespace Space

/-- The bytes of the space that are in use. -/
def used (s : Space) : Finset Nat := Finset.range s.logicalSize \ s.free.bytes

theorem mem_used {s : Space} {x : Nat} : x ∈ s.used ↔ x < s.logicalSize ∧ x ∉ s.free.bytes := by
  rw [used, Finset.mem_sdiff, Finset.mem_range]

theorem Sound.used_card {s : Space} (h : s.Sound) : s.freeSpace = s.logicalSize - s.used.card := by
  have hsub : s.free.bytes ⊆ Finset.range s.logicalSize := fun x hx =>
    Finset.mem_range.2 (h.below x hx)
  have hle := Finset.card_le_card hsub
  rw [used, Finset.card_sdiff_of_subset hsub, Finset.card_range, freeSpace, ← h.pool.card_bytes]
  rw [Finset.card_range] at hle
  omega

/-- What was handed out between two moments: bytes that were not in use, and are now. -/
structure Obtains (s s' : Space) (bytes : Finset Nat) : Prop where
  grows : s.logicalSize ≤ s'.logicalSize
  unused : Disjoint s.used bytes
  used : s'.used = s.used ∪ bytes

theorem Obtains.refl (s : Space) : Obtains s s ∅ :=
  ⟨Nat.le_refl _, Finset.disjoint_empty_right _, (Finset.union_empty _).symm⟩

theorem Obtains.trans {s t u : Space} {first second : Finset Nat} (h₁ : Obtains s t first)
    (h₂ : Obtains t u second) : Obtains s u (first ∪ second) := by
  refine ⟨h₁.grows.trans h₂.grows, ?_, by rw [h₂.used, h₁.used, Finset.union_assoc]⟩
  have hunused := h₂.unused
  rw [h₁.used, Finset.disjoint_union_left] at hunused
  exact Finset.disjoint_union_right.2 ⟨h₁.unused, hunused.1⟩

/-- Bytes handed out were free or past the end, and lie in the space and are not free any more. -/
theorem Obtains.fresh {s s' : Space} {bytes : Finset Nat} (h : Obtains s s' bytes) :
    ∀ x ∈ bytes, (x ∈ s.free.bytes ∨ s.logicalSize ≤ x) ∧
      x < s'.logicalSize ∧ x ∉ s'.free.bytes := by
  intro x hx
  have hbefore : x ∉ s.used := fun hused => Finset.disjoint_left.1 h.unused hused hx
  have hafter : x ∈ s'.used := by
    rw [h.used]
    exact Finset.mem_union_right _ hx
  rw [mem_used] at hbefore hafter
  refine ⟨?_, hafter⟩
  by_cases hlt : x < s.logicalSize
  · exact .inl (by_contra fun hfree => hbefore ⟨hlt, hfree⟩)
  · exact .inr (Nat.not_lt.1 hlt)

/-! ## The operations -/

theorem extend_obtains {s s' : Space} (hs : s.Sound) {h h' : Host} {size : Nat}
    (he : s.extend h size = .ok (s', h') ()) :
    Obtains s s' (Finset.Ico s.logicalSize (s.logicalSize + size)) := by
  obtain ⟨hfree, hsize⟩ := extend_ok he
  refine ⟨by omega, Finset.disjoint_left.2 ?_, ?_⟩
  · intro x hx hx'
    rw [mem_used] at hx
    rw [Finset.mem_Ico] at hx'
    omega
  · ext x
    have hbelow := hs.below x
    rw [Finset.mem_union, mem_used, mem_used, hfree, hsize, Finset.mem_Ico]
    constructor
    · rintro ⟨hlt, hx⟩
      by_cases hin : x < s.logicalSize
      · exact .inl ⟨hin, hx⟩
      · exact .inr ⟨Nat.not_lt.1 hin, hlt⟩
    · rintro (⟨hlt, hx⟩ | ⟨hle, hlt⟩)
      · exact ⟨by omega, hx⟩
      · exact ⟨hlt, fun hx => Nat.not_lt.2 hle (hbelow hx)⟩

theorem extend_error {s : Space} {h : Host} {size : Nat} {f : Failure}
    (he : (s.extend h size).answer = .error f) : (s.extend h size).state = (s, h) := by
  rcases s.extend_cases h size with
    ⟨f, heq⟩ | ⟨-, heq⟩ | ⟨-, -, -, heq⟩ | ⟨amount, s', h', -, -, heq⟩
  · rw [heq]
    rfl
  all_goals
    rw [heq] at he
    cases he

theorem obtains_of_taken {s : Space} (hs : s.Sound) {free : Pool} {bytes : Finset Nat}
    (hsub : bytes ⊆ s.free.bytes) (hfree : free.bytes = s.free.bytes \ bytes) :
    Obtains s { s with free := free } bytes := by
  refine ⟨Nat.le_refl _, Finset.disjoint_left.2 ?_, ?_⟩
  · intro x hx hx'
    exact (mem_used.1 hx).2 (hsub hx')
  · ext x
    simp only [Finset.mem_union, mem_used, hfree, Finset.mem_sdiff, not_and, not_not]
    constructor
    · rintro ⟨hlt, hx⟩
      by_cases hin : x ∈ s.free.bytes
      · exact .inr (hx hin)
      · exact .inl ⟨hlt, hin⟩
    · rintro (⟨hlt, hx⟩ | hx)
      · exact ⟨hlt, fun hin => absurd hin hx⟩
      · exact ⟨hs.below x (hsub hx), fun _ => hx⟩

theorem allocate_obtains {s : Space} (hs : s.Sound) {h : Host} {size offset : Nat}
    (ha : (s.allocate h size).answer = .ok offset) :
    Obtains s (s.allocate h size).state.1 (Finset.Ico offset (offset + size)) := by
  by_cases hsize : size = 0
  · unfold allocate
    rw [if_pos hsize, hsize, Nat.add_zero, Finset.Ico_self]
    exact .refl s
  · cases hallocate : s.allocate h size with
    | mk state answer =>
    obtain ⟨s', h'⟩ := state
    rw [hallocate] at ha
    cases ha
    rcases allocate_source (Nat.pos_of_ne_zero hsize) hallocate with
      ⟨free, hfree, rfl, -⟩ | ⟨-, hextend, rfl⟩
    · obtain ⟨-, hsub, -, hbytes⟩ := Pool.allocate_some hs.pool hfree
      exact obtains_of_taken hs hsub hbytes
    · -- the bytes are the last ones of the longer space
      exact extend_obtains hs hextend

theorem allocate_error {s : Space} {h : Host} {size : Nat} {f : Failure}
    (ha : (s.allocate h size).answer = .error f) : (s.allocate h size).state = (s, h) := by
  unfold allocate at ha ⊢
  split at ha
  · cases ha
  · next hsize =>
    rw [if_neg hsize]
    cases halloc : s.free.allocate size with
    | some found =>
      rw [halloc] at ha
      cases ha
    | none =>
      rw [halloc] at ha
      cases hanswer : (s.extend h size).answer with
      | ok a =>
        simp only [Outcome.andThen, hanswer] at ha
        cases ha
      | error g =>
        simp only [Outcome.andThen, hanswer]
        exact extend_error hanswer

/-- The bytes of a list of regions. -/
def regionBytes (regions : List Region) : Finset Nat := regions.toFinset.biUnion Region.bytes

theorem mem_regionBytes {regions : List Region} {x : Nat} :
    x ∈ regionBytes regions ↔ ∃ r ∈ regions, x ∈ r.bytes := by
  simp [regionBytes]

/-- A region that was carved was free. -/
theorem Carved.region_subset {p free : Pool} {regions : List Region} (hc : Carved p free regions)
    {r : Region} (hr : r ∈ regions) : r.bytes ⊆ p.bytes :=
  fun x hx => (hc.mem_iff x).2 (.inr ⟨r, hr, hx⟩)

/-- What is left of a pool is what it had, without the regions. -/
theorem Carved.bytes_eq {p free : Pool} {regions : List Region} (hc : Carved p free regions) :
    free.bytes = p.bytes \ regionBytes regions := by
  ext x
  rw [Finset.mem_sdiff, mem_regionBytes, hc.mem_iff]
  constructor
  · intro hx
    refine ⟨.inl hx, ?_⟩
    rintro ⟨r, hr, hin⟩
    exact Finset.disjoint_left.1 (hc.taken r hr) hin hx
  · rintro ⟨hx | hin, hout⟩
    · exact hx
    · exact absurd hin hout

theorem Carved.obtains {s : Space} (hs : s.Sound) {free : Pool} {regions : List Region}
    (hc : Carved s.free free regions) :
    Obtains s { s with free := free } (regionBytes regions) := by
  refine obtains_of_taken hs (fun x hx => ?_) hc.bytes_eq
  obtain ⟨r, hr, hin⟩ := mem_regionBytes.1 hx
  exact hc.region_subset hr hin

theorem mem_tail {start size count : Nat} {r : Region} (hr : r ∈ tail start size count) :
    ∃ i < count, r = ⟨start + i * size, size⟩ := by
  obtain ⟨i, hi, rfl⟩ := List.mem_map.1 hr
  exact ⟨i, List.mem_range.1 hi, rfl⟩

theorem tail_disjoint (start size count : Nat) :
    (tail start size count).Pairwise fun r t => Disjoint r.bytes t.bytes := by
  unfold tail
  rw [List.pairwise_map]
  apply List.pairwise_lt_range.imp
  intro i j hij
  apply Finset.disjoint_left.2
  intro x hx hx'
  simp only [Region.mem_bytes] at hx hx'
  have : (i + 1) * size ≤ j * size := Nat.mul_le_mul_right _ hij
  rw [Nat.succ_mul] at this
  omega

/-- The regions of a tail lie end to end from its start on. -/
theorem regionBytes_tail (start : Nat) {size : Nat} (hsize : 0 < size) (count : Nat) :
    regionBytes (tail start size count) = Finset.Ico start (start + size * count) := by
  ext x
  rw [mem_regionBytes, Finset.mem_Ico]
  constructor
  · rintro ⟨r, hr, hx⟩
    obtain ⟨i, hi, rfl⟩ := mem_tail hr
    simp only [Region.mem_bytes] at hx
    have : (i + 1) * size ≤ count * size := Nat.mul_le_mul_right _ hi
    rw [Nat.succ_mul] at this
    rw [Nat.mul_comm size count]
    omega
  -- the region that holds a byte is found by division
  · rintro ⟨hle, hlt⟩
    have hi : (x - start) / size < count := by
      rw [Nat.div_lt_iff_lt_mul hsize, Nat.mul_comm]
      omega
    refine ⟨_, List.mem_map.2 ⟨(x - start) / size, List.mem_range.2 hi, rfl⟩, ?_⟩
    have := Nat.div_add_mod (x - start) size
    have := Nat.mod_lt (x - start) hsize
    simp only [Region.mem_bytes]
    rw [Nat.mul_comm ((x - start) / size) size]
    omega

/-- The regions of a batch hold bytes, share none, and are what was handed out. -/
theorem allocateBatch_obtains {s : Space} (hs : s.Sound) {h : Host} {count least greatest : Nat}
    {regions : List Region} (ha : (s.allocateBatch h count least greatest).answer = .ok regions) :
    (∀ r ∈ regions, 0 < r.size) ∧ (regions.Pairwise fun r t => Disjoint r.bytes t.bytes) ∧
      Obtains s (s.allocateBatch h count least greatest).state.1 (regionBytes regions) := by
  rcases allocateBatch_cases hs h count least greatest with
    ⟨free, f, -, -, heq⟩ | ⟨free, carved, hc, heq⟩ |
    ⟨free, carved, size, missing, s', h', hc, hsize, hextend, heq⟩
  · rw [heq] at ha
    cases ha
  · rw [heq] at ha ⊢
    cases ha
    exact ⟨hc.nonempty, hc.disjoint, hc.obtains hs⟩
  · rw [heq] at ha ⊢
    cases ha
    have htaken := hc.obtains hs
    have hsound : Sound { s with free := free } :=
      hs.withPool hc.sound fun x hx => hs.below x (hc.subset hx)
    have hgrown := extend_obtains hsound hextend
    have hunion : regionBytes (carved ++ tail s.logicalSize size missing) =
        regionBytes carved ∪ regionBytes (tail s.logicalSize size missing) := by
      ext x
      simp only [Finset.mem_union, mem_regionBytes, List.mem_append, or_and_right, exists_or]
    refine ⟨?_, ?_, ?_⟩
    · intro r hr
      rcases List.mem_append.1 hr with hr | hr
      · exact hc.nonempty r hr
      · obtain ⟨i, -, rfl⟩ := mem_tail hr
        exact hsize
    · refine List.pairwise_append.2 ⟨hc.disjoint, tail_disjoint _ _ _, ?_⟩
      intro r hr t ht
      -- what was carved lies below the old end, the tail starts there
      apply Finset.disjoint_left.2
      intro x hx hx'
      have hbelow := hs.below x ((hc.mem_iff x).2 (.inr ⟨r, hr, hx⟩))
      have htail : x ∈ regionBytes (tail s.logicalSize size missing) :=
        mem_regionBytes.2 ⟨t, ht, hx'⟩
      rw [regionBytes_tail _ hsize, Finset.mem_Ico] at htail
      omega
    · rw [hunion, regionBytes_tail _ hsize]
      exact htaken.trans hgrown

/-- A batch that fails leaves the same bytes in use. -/
theorem allocateBatch_error {s : Space} (hs : s.Sound) {h : Host} {count least greatest : Nat}
    {f : Failure} (ha : (s.allocateBatch h count least greatest).answer = .error f) :
    ∃ free, (s.allocateBatch h count least greatest).state = ({ s with free := free }, h) ∧
      free.bytes = s.free.bytes := by
  rcases allocateBatch_cases hs h count least greatest with
    ⟨free, f, -, hbytes, heq⟩ | ⟨free, carved, hc, heq⟩ |
    ⟨free, carved, size, missing, s', h', hc, hsize, hextend, heq⟩
  · rw [heq]
    exact ⟨free, rfl, hbytes⟩
  all_goals
    rw [heq] at ha
    cases ha

theorem used_release {s s' : Space} (hs : s.Sound) {offset size : Nat}
    (hr : s.release offset size = .ok s') :
    s'.logicalSize = s.logicalSize ∧ s'.used = s.used \ Finset.Ico offset (offset + size) := by
  obtain ⟨free, rfl, -, hbytes⟩ := release_ok hs hr
  refine ⟨rfl, ?_⟩
  ext x
  simp only [Finset.mem_sdiff, mem_used, hbytes, Finset.mem_union, not_or, and_assoc]

end Space

/-! ## Runs -/

/-- A space, and the bytes that its callers were given and have not returned. -/
structure Ledger where
  space : Space
  held : Finset Nat

namespace Ledger

open Space

/-- What callers hold after a request; one that fails gives and returns nothing. -/
def heldAfter (l : Ledger) (h : Host) : Request → Finset Nat
  | .extend size =>
    match (l.space.extend h size).answer with
    | .ok () => l.held ∪ Finset.Ico l.space.logicalSize (l.space.logicalSize + size)
    | .error _ => l.held
  | .allocate size =>
    match (l.space.allocate h size).answer with
    | .ok offset => l.held ∪ Finset.Ico offset (offset + size)
    | .error _ => l.held
  | .batch count least greatest =>
    match (l.space.allocateBatch h count least greatest).answer with
    | .ok regions => l.held ∪ regionBytes regions
    | .error _ => l.held
  | .release offset size =>
    match l.space.release offset size with
    | .ok _ => l.held \ Finset.Ico offset (offset + size)
    | .error _ => l.held
  | .write _ _ => l.held
  | .store _ _ _ => l.held

def step (l : Ledger) (h : Host) (r : Request) : Ledger := ⟨(l.space.serve h r).1, l.heldAfter h r⟩

/-- The ledger after requests, each with the host that it meets. -/
def run (l : Ledger) (requests : List (Host × Request)) : Ledger :=
  requests.foldl (fun l request => l.step request.1 request.2) l

/-- The callers hold what is in use. -/
structure Sound (l : Ledger) : Prop where
  space : l.space.Sound
  held : l.held = l.space.used

/-- A request changes what is in use as it changes what is held, and the space does not get
shorter. -/
theorem used_serve {l : Ledger} (hl : l.Sound) (h : Host) (r : Request) :
    l.heldAfter h r = (l.space.serve h r).1.used ∧
      l.space.logicalSize ≤ (l.space.serve h r).1.logicalSize := by
  have hs := hl.space
  cases r with
  | extend size =>
    cases heq : l.space.extend h size with
    | mk state answer =>
    cases answer with
    | ok a =>
      have ho := extend_obtains hs (heq : l.space.extend h size = .ok (state.1, state.2) ())
      simp only [heldAfter, serve, heq]
      exact ⟨by rw [hl.held, ho.used], ho.grows⟩
    | error f =>
      have hstate := extend_error (f := f) (by rw [heq])
      rw [heq] at hstate
      simp only [heldAfter, serve, heq, hstate]
      exact ⟨hl.held, Nat.le_refl _⟩
  | allocate size =>
    simp only [heldAfter, serve]
    cases hanswer : (l.space.allocate h size).answer with
    | ok offset =>
      have ho := allocate_obtains hs hanswer
      exact ⟨by rw [hl.held, ho.used], ho.grows⟩
    | error f =>
      rw [allocate_error hanswer]
      exact ⟨hl.held, Nat.le_refl _⟩
  | batch count least greatest =>
    simp only [heldAfter, serve]
    cases hanswer : (l.space.allocateBatch h count least greatest).answer with
    | ok regions =>
      obtain ⟨-, -, ho⟩ := allocateBatch_obtains hs hanswer
      exact ⟨by rw [hl.held, ho.used], ho.grows⟩
    | error f =>
      obtain ⟨free, hstate, hbytes⟩ := allocateBatch_error hs hanswer
      rw [hstate]
      exact ⟨by rw [hl.held, used, used, hbytes], Nat.le_refl _⟩
  | release offset size =>
    simp only [heldAfter, serve]
    cases hr : l.space.release offset size with
    | ok space =>
      obtain ⟨hsize, hused⟩ := used_release hs hr
      exact ⟨by rw [hl.held, hused], Nat.le_of_eq hsize.symm⟩
    | error f => exact ⟨hl.held, Nat.le_refl _⟩
  | write offset bytes =>
    obtain ⟨chain, disk, heq, -⟩ := outline_write hs h offset bytes
    simp only [heldAfter, serve, heq]
    exact ⟨hl.held, Nat.le_refl _⟩
  | store offset size bytes =>
    simp only [heldAfter, serve]
    cases hstore : l.space.storeInMemory? offset size bytes with
    | none => exact ⟨hl.held, Nat.le_refl _⟩
    | some s' =>
      obtain ⟨chain, rfl, -⟩ := outline_store hs hstore
      exact ⟨hl.held, Nat.le_refl _⟩

theorem step_sound {l : Ledger} (hl : l.Sound) (h : Host) (r : Request) : (l.step h r).Sound :=
  ⟨serve_sound hl.space h r, (used_serve hl h r).1⟩

theorem run_sound {l : Ledger} (hl : l.Sound) (requests : List (Host × Request)) :
    (l.run requests).Sound := by
  induction requests generalizing l with
  | nil => exact hl
  | cons request rest ih => exact ih (step_sound hl request.1 request.2)

theorem sound_create {r r' : Registry} {options : SpaceOptions} {s : Space}
    (h : Space.create r options = .ok (s, r')) : Sound ⟨s, ∅⟩ := by
  refine ⟨Space.sound_create h, ?_⟩
  obtain ⟨stem, -, rfl⟩ := create_ok h
  simp [used]

/-- No byte in use is handed out, and none is lost. After every run of requests to a new space,
failed ones included: free bytes lie in the space; the bytes in use are those that callers were
given and have not returned, so they and the free ones make up the size; no request shortens the
space; ranges and batches that are handed out consist of bytes that were free or past the end, and
that are in the space and not free afterwards; and exactly the ranges of the space in use can be
returned. -/
theorem handed_out_once {r r' : Registry} {options : SpaceOptions} {s₀ : Space}
    (hcreate : Space.create r options = .ok (s₀, r')) (requests : List (Host × Request)) :
    let l := (Ledger.mk s₀ ∅).run requests
    let s := l.space
    (∀ x ∈ s.free.bytes, x < s.logicalSize) ∧ s.logicalSize < Offset.bound ∧
    (∀ x, x ∈ l.held ↔ x < s.logicalSize ∧ x ∉ s.free.bytes) ∧
    s.freeSpace = s.logicalSize - l.held.card ∧
    ∀ h : Host,
      (∀ request, s.logicalSize ≤ (l.step h request).space.logicalSize) ∧
      (∀ size offset, (s.allocate h size).answer = .ok offset →
        ∀ x, offset ≤ x → x < offset + size →
          (x ∈ s.free.bytes ∨ s.logicalSize ≤ x) ∧
          x < (s.allocate h size).state.1.logicalSize ∧
          x ∉ (s.allocate h size).state.1.free.bytes) ∧
      (∀ count least greatest regions,
        (s.allocateBatch h count least greatest).answer = .ok regions →
          (regions.Pairwise fun a b => Disjoint a.bytes b.bytes) ∧
          ∀ region ∈ regions, 0 < region.size ∧ ∀ x ∈ region.bytes,
            (x ∈ s.free.bytes ∨ s.logicalSize ≤ x) ∧
            x < (s.allocateBatch h count least greatest).state.1.logicalSize ∧
            x ∉ (s.allocateBatch h count least greatest).state.1.free.bytes) ∧
      (∀ offset size,
        ((∃ s', s.release offset size = .ok s') ↔ 0 < size ∧ offset + size ≤ s.logicalSize ∧
          Disjoint (Finset.Ico offset (offset + size)) s.free.bytes) ∧
        ∀ s', s.release offset size = .ok s' →
          s'.free.bytes = s.free.bytes ∪ Finset.Ico offset (offset + size)) := by
  intro l s
  have hl : l.Sound := run_sound (sound_create hcreate) requests
  have hs : s.Sound := hl.space
  refine ⟨hs.below, hs.bounded, ?_, ?_, fun h => ⟨?_, ?_, ?_, ?_⟩⟩
  · intro x
    rw [hl.held, mem_used]
  · rw [hl.held]
    exact hs.used_card
  · intro request
    exact (used_serve hl h request).2
  · intro size offset ha x hle hlt
    exact (allocate_obtains hs ha).fresh x (Finset.mem_Ico.2 ⟨hle, hlt⟩)
  · intro count least greatest regions ha
    obtain ⟨hsizes, hdisjoint, ho⟩ := allocateBatch_obtains hs ha
    refine ⟨hdisjoint, fun region hregion => ⟨hsizes region hregion, ?_⟩⟩
    intro x hx
    exact ho.fresh x (mem_regionBytes.2 ⟨region, hregion, hx⟩)
  · intro offset size
    refine ⟨release_iff hs, ?_⟩
    intro s' hr
    obtain ⟨free, rfl, -, hbytes⟩ := release_ok hs hr
    exact hbytes

/-- Ten bytes, three of them returned, two of these handed out again, and a return that overlaps a
free byte: nine bytes are held, and one is free. -/
theorem handed_out_once_standard : ∃ s₀ r', Space.create ⟨Settings.standard, 0, [0], 0⟩ {} =
    .ok (s₀, r') ∧
    let h : Host := { registry := r', disk := Disk.standard }
    let l := (Ledger.mk s₀ ∅).run
      [(h, .extend 10), (h, .release 2 3), (h, .allocate 2), (h, .release 2 9)]
    l.space.logicalSize = 10 ∧ l.space.freeSpace = 1 ∧
      l.space.freeSpace = l.space.logicalSize - l.held.card := by
  refine ⟨_, _, rfl, rfl, rfl, ?_⟩
  have hcreate : Space.create ⟨Settings.standard, 0, [0], 0⟩ {} = .ok (_, _) := rfl
  exact (handed_out_once hcreate _).2.2.2.1

end Ledger

end SpillStorage
