import SpillStorage.Proofs.Space.Ledger

/-!
What a batch promises of its regions.

What is proved:
  1. `WellSized`: carving takes no more regions than were asked for, each between the bounds.
  2. `allocateBatch_refused`: a batch whose bounds make no sense, or whose regions cannot be counted
     in offsets, is refused, and nothing changes.
  3. `allocateBatch_eq`: otherwise carving succeeds, and what is missing is grown.
  4. `allocateBatch_promise`: so the regions that are answered are as many as were asked for and
     between the bounds, each was free or is new, and what is free afterwards is what was, without
     them.
-/

namespace SpillStorage.Space

variable {least greatest count size : Nat} {c c' : Carving} {s : Space} {h : Host}

/-! ## Counts and sizes -/

/-- At most `count` regions were taken, and each has at least `least` and at most `greatest`
bytes. -/
structure WellSized (least greatest count : Nat) (c : Carving) : Prop where
  length : c.regions.size ≤ count
  sizes : ∀ r ∈ c.regions.toList, least ≤ r.size ∧ r.size ≤ greatest

namespace WellSized

theorem nil (least greatest count : Nat) (free : Pool) :
    WellSized least greatest count ⟨free, #[]⟩ := ⟨Nat.zero_le _, by simp⟩

theorem take (hc : WellSized least greatest count c) {place : Nat}
    (hroom : c.regions.size < count) (hleast : least ≤ size) (hgreatest : size ≤ greatest)
    (htake : c.take place size = .ok c' ()) :
    WellSized least greatest count c' ∧ c'.regions.size = c.regions.size + 1 := by
  unfold Carving.take at htake
  cases hpool : c.free.take place size with
  | error f =>
    rw [hpool] at htake
    cases htake
  | ok free =>
    rw [hpool] at htake
    cases htake
    have hsize : (c.regions.push ⟨place, size⟩).size = c.regions.size + 1 := Array.size_push _
    refine ⟨⟨?_, ?_⟩, hsize⟩
    · exact hsize ▸ hroom
    · intro r hr
      rw [Array.toList_push, List.mem_append, List.mem_singleton] at hr
      rcases hr with hr | rfl
      · exact hc.sizes r hr
      · exact ⟨hleast, hgreatest⟩

theorem carveWhole {chain : Chain} {limit : Nat} (hleast : least ≤ size)
    (hgreatest : size ≤ greatest) {wanted start : Nat} (hc : WellSized least greatest count c)
    (hwanted : c.regions.size + wanted ≤ count)
    (hcarve : carveWhole chain size limit wanted start c = .ok c' ()) :
    WellSized least greatest count c' := by
  induction wanted generalizing start c with
  | zero =>
    cases hcarve
    exact hc
  | succ wanted ih =>
    unfold Space.carveWhole at hcarve
    split at hcarve
    · obtain ⟨c₁, ⟨⟩, htake, hnext⟩ := Outcome.of_andThen_ok hcarve
      obtain ⟨hc₁, hsize⟩ := hc.take (by omega) hleast hgreatest htake
      exact ih hc₁ (by omega) hnext
    · cases hcarve
      exact hc

theorem carveRest {limit : Nat} (hle : least ≤ greatest) {wanted start : Nat}
    (hc : WellSized least greatest count c) (hwanted : c.regions.size + wanted ≤ count)
    (hcarve : carveRest least greatest limit wanted start c = .ok c' ()) :
    WellSized least greatest count c' := by
  induction wanted generalizing start c with
  | zero =>
    cases hcarve
    exact hc
  | succ wanted ih =>
    unfold Space.carveRest at hcarve
    split at hcarve
    · next hlong =>
      obtain ⟨c₁, ⟨⟩, htake, hnext⟩ := Outcome.of_andThen_ok hcarve
      obtain ⟨hc₁, hsize⟩ := hc.take (by omega) (by omega) (Nat.min_le_right _ _) htake
      exact ih hc₁ (by omega) hnext
    · cases hcarve
      exact hc

theorem carveEach {carve : Segment → Nat → Carving → Outcome Carving Unit}
    (hstep : ∀ segment wanted c c', WellSized least greatest count c →
      c.regions.size + wanted ≤ count → carve segment wanted c = .ok c' () →
        WellSized least greatest count c')
    {segments : List Segment} (hc : WellSized least greatest count c)
    (hcarve : carveEach count carve segments c = .ok c' ()) :
    WellSized least greatest count c' := by
  induction segments generalizing c with
  | nil =>
    cases hcarve
    exact hc
  | cons segment rest ih =>
    obtain ⟨c₁, ⟨⟩, hfirst, hrest⟩ := Outcome.of_andThen_ok hcarve
    have hwanted : c.regions.size + (count - c.regions.size) ≤ count := by
      have := hc.length
      omega
    exact ih (hstep segment _ c c₁ hc hwanted hfirst) hrest

/-- Both passes keep to the count and to the bounds: the preferred size lies between them. -/
theorem carve {chain : Chain} {free : Pool} (hle : least ≤ greatest) (hleast : least ≤ size)
    (hgreatest : size ≤ greatest) (hcarve : carve chain free count size least greatest = .ok c ()) :
    WellSized least greatest count c := by
  obtain ⟨c₁, ⟨⟩, hwhole, hrest⟩ := Outcome.of_andThen_ok hcarve
  have hc₁ : WellSized least greatest count c₁ :=
    carveEach (fun _ _ _ _ hc hwanted => carveWhole hleast hgreatest hc hwanted)
      (nil least greatest count free) hwhole
  split at hrest
  · exact carveEach (fun _ _ _ _ hc hwanted => carveRest hle hc hwanted) hc₁ hrest
  · cases hrest
    exact hc₁

end WellSized

/-! ## The batch -/

/-- Bounds that no size meets are refused, and so are regions that cannot be counted in offsets. -/
theorem allocateBatch_refused (s : Space) (h : Host) (hcount : 0 < count)
    (least greatest : Nat) :
    (least = 0 ∨ greatest < least →
      s.allocateBatch h count least greatest = .fail (s, h) (.invalidRange least greatest)) ∧
    (0 < least → least ≤ greatest →
      Offset.bound ≤ s.preferredSize count least greatest * count →
      s.allocateBatch h count least greatest =
        .fail (s, h) (.invalidRange (s.preferredSize count least greatest) count)) := by
  unfold allocateBatch
  rw [if_neg (Nat.pos_iff_ne_zero.1 hcount)]
  constructor
  · intro hbounds
    rw [if_pos hbounds]
  · intro hleast hle hlarge
    rw [if_neg (by omega)]
    simp only [Offset.product?, if_neg (Nat.not_lt.2 hlarge)]

theorem preferredSize_bounds (s : Space) (count : Nat) (hle : least ≤ greatest) :
    least ≤ s.preferredSize count least greatest ∧
      s.preferredSize count least greatest ≤ greatest := by
  unfold preferredSize
  omega

/-- Every other batch carves what the pool has, which never fails, and grows the rest. -/
theorem allocateBatch_eq (hs : s.Sound) (h : Host) (hcount : 0 < count) (hleast : 0 < least)
    (hle : least ≤ greatest)
    (hsmall : s.preferredSize count least greatest * count < Offset.bound) :
    ∃ c, carve s.chain s.free count (s.preferredSize count least greatest) least greatest =
        .ok c () ∧
      Carved s.free c.free c.regions.toList ∧ WellSized least greatest count c ∧
      s.allocateBatch h count least greatest = completeBatch { s with free := c.free } h count
        (s.preferredSize count least greatest) c.regions.toList := by
  obtain ⟨hsize, hsize'⟩ := s.preferredSize_bounds count hle
  have hpositive : 0 < s.preferredSize count least greatest := by omega
  obtain ⟨c, hcarve, hc⟩ := carve_spec hs.pool hs.layout.joint count hpositive hleast hle
  refine ⟨c, hcarve, hc, .carve hle hsize hsize' hcarve, ?_⟩
  unfold allocateBatch
  rw [if_neg (Nat.pos_iff_ne_zero.1 hcount), if_neg (by omega)]
  simp only [Offset.product?_of_lt hsmall, hcarve, Outcome.ok]

theorem length_tail (start size count : Nat) : (tail start size count).length = count := by
  rw [tail, List.length_map, List.length_range]

/-- A batch that is completed has a tail behind what was carved, as long as what was missing. -/
theorem completeBatch_ok {regions all : List Region}
    (hok : (completeBatch s h count size regions).answer = .ok all) :
    all = regions ++ tail s.logicalSize size (count - regions.length) ∧
      (completeBatch s h count size regions).state.1.free = s.free ∧
      (completeBatch s h count size regions).state.1.logicalSize =
        s.logicalSize + size * (count - regions.length) := by
  unfold completeBatch at hok ⊢
  simp only at hok ⊢
  by_cases hmissing : count - regions.length = 0
  · rw [if_pos hmissing] at hok ⊢
    cases hok
    rw [hmissing]
    exact ⟨(List.append_nil _).symm, rfl, rfl⟩
  · rw [if_neg hmissing] at hok ⊢
    cases hextend : s.extend h (size * (count - regions.length)) with
    | mk state answer =>
    obtain ⟨s', h'⟩ := state
    cases answer with
    | error f =>
      simp only [hextend] at hok
      split at hok <;> cases hok
    | ok a =>
      simp only [hextend] at hok ⊢
      cases hok
      obtain ⟨hfree, hlength⟩ := extend_ok (hextend : s.extend h _ = .ok (s', h') ())
      exact ⟨rfl, hfree, hlength⟩

/-- What a batch answers is what it promises. -/
theorem allocateBatch_promise (hs : s.Sound) (hcount : 0 < count) (hleast : 0 < least)
    (hle : least ≤ greatest) (hsmall : s.preferredSize count least greatest * count < Offset.bound)
    {regions : List Region}
    (hok : (s.allocateBatch h count least greatest).answer = .ok regions) :
    let s' := (s.allocateBatch h count least greatest).state.1
    regions.length = count ∧ (∀ r ∈ regions, least ≤ r.size ∧ r.size ≤ greatest) ∧
      (regions.Pairwise fun r t => Disjoint r.bytes t.bytes) ∧
      (∀ r ∈ regions,
        r.bytes ⊆ s.free.bytes ∨ r.bytes ⊆ Finset.Ico s.logicalSize s'.logicalSize) ∧
      s'.free.bytes = s.free.bytes \ regionBytes regions := by
  intro s'
  obtain ⟨-, hdisjoint, -⟩ := allocateBatch_obtains hs hok
  obtain ⟨hsize, hsize'⟩ := s.preferredSize_bounds count hle
  obtain ⟨c, -, hc, hwell, heq⟩ := allocateBatch_eq hs h hcount hleast hle hsmall
  have hlength := hwell.length
  rw [← Array.length_toList] at hlength
  rw [heq] at hok
  obtain ⟨hall, hfree, hgrown⟩ := completeBatch_ok hok
  rw [← heq] at hfree hgrown
  -- a tail begins where the space ended, so it takes nothing from the pool
  have htail : ∀ r ∈ tail s.logicalSize (s.preferredSize count least greatest)
      (count - c.regions.toList.length), r.bytes ⊆ Finset.Ico s.logicalSize s'.logicalSize := by
    intro r hr x hx
    rw [hgrown, ← regionBytes_tail s.logicalSize (by omega)]
    exact mem_regionBytes.2 ⟨r, hr, hx⟩
  subst hall
  refine ⟨?_, ?_, hdisjoint, ?_, ?_⟩
  · rw [List.length_append, length_tail]
    omega
  · intro r hr
    rcases List.mem_append.1 hr with hr | hr
    · exact hwell.sizes r hr
    · obtain ⟨i, -, rfl⟩ := mem_tail hr
      exact ⟨hsize, hsize'⟩
  · intro r hr
    rcases List.mem_append.1 hr with hr | hr
    · exact .inl (hc.region_subset hr)
    · exact .inr (htail r hr)
  · rw [hfree, hc.bytes_eq]
    ext x
    rw [Finset.mem_sdiff, Finset.mem_sdiff, and_congr_right_iff]
    intro hx
    rw [not_iff_not, mem_regionBytes, mem_regionBytes]
    constructor
    · rintro ⟨r, hr, hin⟩
      exact ⟨r, List.mem_append_left _ hr, hin⟩
    · rintro ⟨r, hr, hin⟩
      rcases List.mem_append.1 hr with hr | hr
      · exact ⟨r, hr, hin⟩
      · have hpast := (Finset.mem_Ico.1 (htail r hr hin)).1
        exact absurd (hs.below x hx) (Nat.not_lt.2 hpast)

end SpillStorage.Space
