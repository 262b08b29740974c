import SpillStorage.Proofs.Pool.BestFit
import SpillStorage.Proofs.Space.Regions

/-!
What carving takes, told before it begins.

What is proved:
  1. `carve_plan`: the regions are the ones that `wholePlan` and `restPlan` list, first those of the
     preferred size, then those of what is left.
  2. `spent_of_short`: if regions are missing afterwards, no free segment of the least size is left.
  3. `segments_gaps` and `length_carve`: how many regions one free segment gives.
  4. `length_places_of_straight`: as many as there is room for, if no chunk goes past the end of the
     one before to a place in memory.

Neither pass looks at the pool while it goes on: which regions are taken depends on the chain and on
the segments listed at its beginning. So the plans are lists, and the pool comes in only where the
second pass lists what the first one left.
-/

namespace SpillStorage.Space

variable {chain : Chain} {c c' : Carving} {p free : Pool} {s : Segment}
  {count least greatest limit size start wanted : Nat}

/-! ## Plans -/

/-- Where chunks of `size` bytes are carved out of `[start, limit)`, at most `wanted` of them: each
at the first place from the end of the one before where it lies in memory, or right there. -/
def places (chain : Chain) (size limit : Nat) : Nat → Nat → List Nat
  | 0, _ => []
  | wanted + 1, start =>
    if start + size ≤ limit then
      let place := (chain.findMemory? start limit size).getD start
      place :: places chain size limit wanted (place + size)
    else []

/-- Regions of at least `least` and at most `greatest` bytes, end to end from `start` on, at most
`wanted` of them. -/
def pieces (least greatest limit : Nat) : Nat → Nat → List Region
  | 0, _ => []
  | wanted + 1, start =>
    if least ≤ limit - start then
      let size := min (limit - start) greatest
      ⟨start, size⟩ :: pieces least greatest limit wanted (start + size)
    else []

/-- The regions that the first pass takes from a segment. -/
def wholePlan (chain : Chain) (size : Nat) (s : Segment) (wanted : Nat) : List Region :=
  (places chain size s.finish wanted s.position).map fun place => ⟨place, size⟩

/-- The regions that the second pass takes from a segment. -/
def restPlan (least greatest : Nat) (s : Segment) (wanted : Nat) : List Region :=
  pieces least greatest s.finish wanted s.position

/-- What a pass takes from one segment after the other. -/
def planEach (plan : Segment → Nat → List Region) : Nat → List Segment → List Region
  | _, [] => []
  | wanted, s :: rest => plan s wanted ++ planEach plan (wanted - (plan s wanted).length) rest

/-- The chunks of a pool. -/
def wholes (chain : Chain) (p : Pool) (count size : Nat) : List Region :=
  planEach (wholePlan chain size) count (segmentsFrom p size)

/-! ## Carving follows the plans -/

theorem toList_take {place : Nat} (h : c.take place size = .ok c' ()) :
    c'.regions.toList = c.regions.toList ++ [⟨place, size⟩] := by
  unfold Carving.take at h
  cases htake : c.free.take place size with
  | error f =>
    rw [htake] at h
    cases h
  | ok free =>
    rw [htake] at h
    cases h
    exact Array.toList_push

theorem toList_carveWhole (h : carveWhole chain size limit wanted start c = .ok c' ()) :
    c'.regions.toList = c.regions.toList ++
      (places chain size limit wanted start).map fun place => ⟨place, size⟩ := by
  induction wanted generalizing start c with
  | zero =>
    cases h
    exact (List.append_nil _).symm
  | succ wanted ih =>
    unfold carveWhole at h
    unfold places
    split at h
    · next hle =>
      obtain ⟨c₁, ⟨⟩, htake, hnext⟩ := Outcome.of_andThen_ok h
      rw [ih hnext, toList_take htake, if_pos hle, List.append_assoc]
      rfl
    · next hgt =>
      cases h
      rw [if_neg hgt]
      exact (List.append_nil _).symm

theorem toList_carveRest (h : carveRest least greatest limit wanted start c = .ok c' ()) :
    c'.regions.toList = c.regions.toList ++ pieces least greatest limit wanted start := by
  induction wanted generalizing start c with
  | zero =>
    cases h
    exact (List.append_nil _).symm
  | succ wanted ih =>
    unfold carveRest at h
    unfold pieces
    split at h
    · next hle =>
      obtain ⟨c₁, ⟨⟩, htake, hnext⟩ := Outcome.of_andThen_ok h
      rw [ih hnext, toList_take htake, if_pos hle, List.append_assoc]
      rfl
    · next hgt =>
      cases h
      rw [if_neg hgt]
      exact (List.append_nil _).symm

theorem toList_carveEach {carve : Segment → Nat → Carving → Outcome Carving Unit}
    (plan : Segment → Nat → List Region)
    (hplan : ∀ s wanted c c', carve s wanted c = .ok c' () →
      c'.regions.toList = c.regions.toList ++ plan s wanted)
    {segments : List Segment} (h : carveEach count carve segments c = .ok c' ()) :
    c'.regions.toList =
      c.regions.toList ++ planEach plan (count - c.regions.toList.length) segments := by
  induction segments generalizing c with
  | nil =>
    cases h
    exact (List.append_nil _).symm
  | cons s rest ih =>
    obtain ⟨c₁, ⟨⟩, hfirst, hrest⟩ := Outcome.of_andThen_ok h
    have hregions := hplan _ _ _ _ hfirst
    rw [← Array.length_toList] at hregions
    rw [ih hrest, hregions, planEach, List.append_assoc, List.length_append, Nat.sub_add_eq]

theorem length_planEach_le {plan : Segment → Nat → List Region}
    (hplan : ∀ s wanted, (plan s wanted).length ≤ wanted) (segments : List Segment) :
    (planEach plan wanted segments).length ≤ wanted := by
  induction segments generalizing wanted with
  | nil => exact Nat.zero_le _
  | cons s rest ih =>
    have hfirst := hplan s wanted
    have hrest : (planEach plan (wanted - (plan s wanted).length) rest).length ≤
        wanted - (plan s wanted).length := ih
    rw [planEach, List.length_append]
    omega

/-- A pass over segments of which nothing is wanted takes nothing. -/
theorem planEach_zero {plan : Segment → Nat → List Region}
    (hplan : ∀ s wanted, (plan s wanted).length ≤ wanted) (segments : List Segment) :
    planEach plan 0 segments = [] :=
  List.length_eq_zero_iff.1 (Nat.le_zero.1 (length_planEach_le hplan segments))

theorem length_pieces_le (least greatest limit wanted start : Nat) :
    (pieces least greatest limit wanted start).length ≤ wanted := by
  induction wanted generalizing start with
  | zero => exact Nat.le_refl _
  | succ wanted ih =>
    unfold pieces
    split
    · exact Nat.succ_le_succ (ih _)
    · exact Nat.zero_le _

theorem length_places_le (chain : Chain) (size limit wanted start : Nat) :
    (places chain size limit wanted start).length ≤ wanted := by
  induction wanted generalizing start with
  | zero => exact Nat.le_refl _
  | succ wanted ih =>
    unfold places
    split
    · exact Nat.succ_le_succ (ih _)
    · exact Nat.zero_le _

theorem length_restPlan_le (s : Segment) (wanted : Nat) :
    (restPlan least greatest s wanted).length ≤ wanted := length_pieces_le _ _ _ _ _

/-- What is carved are the chunks, and then pieces of the segments that they leave. -/
theorem carve_plan (h : p.Sound) (hchain : chain.Joint) (hsize : 0 < size)
    (hcarve : carve chain p count size least greatest = .ok c ()) :
    ∃ free, Carved p free (wholes chain p count size) ∧
      c.regions.toList = wholes chain p count size ++
        planEach (restPlan least greatest) (count - (wholes chain p count size).length)
          (segmentsFrom free least) := by
  obtain ⟨c₁, heq₁, hc₁⟩ := carveEach_spec count
    (fun segment wanted c hc hsub => carveWhole_spec hchain hsize wanted segment.position c hc hsub)
    (segmentsFrom p size) (segmentsFrom_sorted h size) ⟨p, #[]⟩ (carved_nil h) segmentsFrom_bytes
  have hwholes : c₁.regions.toList = wholes chain p count size :=
    toList_carveEach (wholePlan chain size) (fun _ _ _ _ => toList_carveWhole) heq₁
  unfold carve at hcarve
  rw [heq₁, Outcome.andThen_ok] at hcarve
  refine ⟨c₁.free, hwholes ▸ hc₁, ?_⟩
  split at hcarve
  · rw [← hwholes]
    exact toList_carveEach (restPlan least greatest) (fun _ _ _ _ => toList_carveRest) hcarve
  · next henough =>
    cases hcarve
    rw [← Array.length_toList, hwholes] at henough
    rw [Nat.sub_eq_zero_of_le (Nat.not_lt.1 henough), planEach_zero length_restPlan_le,
      List.append_nil, hwholes]

/-! ## What is left where regions are missing -/

/-- The regions take the segment from its start on until less than `least` bytes are left. -/
def Spent (least : Nat) (s : Segment) (regions : List Region) : Prop :=
  ∃ rest, s.finish < rest + least ∧ ∀ x ∈ s.bytes, x < rest → x ∈ regionBytes regions

theorem Spent.mono {regions regions' : List Region} (h : Spent least s regions)
    (hsub : regions ⊆ regions') : Spent least s regions' := by
  obtain ⟨rest, hshort, hin⟩ := h
  refine ⟨rest, hshort, fun x hx hlt => ?_⟩
  obtain ⟨r, hr, hxr⟩ := mem_regionBytes.1 (hin x hx hlt)
  exact mem_regionBytes.2 ⟨r, hsub hr, hxr⟩

theorem pieces_spend (hshort : (pieces least greatest limit wanted start).length < wanted) :
    ∃ rest, limit < rest + least ∧ ∀ x, start ≤ x → x < rest →
      x ∈ regionBytes (pieces least greatest limit wanted start) := by
  induction wanted generalizing start with
  | zero => cases hshort
  | succ wanted ih =>
    unfold pieces at hshort ⊢
    split at hshort
    · next hle =>
      obtain ⟨rest, hrest, hin⟩ := ih (Nat.lt_of_succ_lt_succ hshort)
      refine ⟨rest, hrest, fun x hx hlt => ?_⟩
      rw [if_pos hle, mem_regionBytes]
      by_cases hfirst : x < start + min (limit - start) greatest
      · exact ⟨_, List.mem_cons_self, Region.mem_bytes.2 ⟨hx, hfirst⟩⟩
      · obtain ⟨r, hr, hxr⟩ := mem_regionBytes.1 (hin x (Nat.not_lt.1 hfirst) hlt)
        exact ⟨r, List.mem_cons_of_mem _ hr, hxr⟩
    · next hgt =>
      exact ⟨start, by omega, fun x hx hlt => absurd hx (Nat.not_le.2 hlt)⟩

/-- A pass that ends short of what was wanted goes through all of its segments. -/
theorem planEach_spend {segments : List Segment}
    (hshort : (planEach (restPlan least greatest) wanted segments).length < wanted) :
    ∀ s ∈ segments, Spent least s (planEach (restPlan least greatest) wanted segments) := by
  induction segments generalizing wanted with
  | nil => simp
  | cons first rest ih =>
    rw [planEach, List.length_append] at hshort
    rw [planEach]
    intro s hs
    rcases List.mem_cons.1 hs with rfl | hs
    · have hfirst : (pieces least greatest s.finish wanted s.position).length < wanted :=
        (Nat.le_add_right _ _).trans_lt hshort
      obtain ⟨left, hleft, hin⟩ := pieces_spend hfirst
      have hspent : Spent least s (restPlan least greatest s wanted) :=
        ⟨left, hleft, fun x hx hlt => hin x (Segment.mem_bytes.1 hx).1 hlt⟩
      exact hspent.mono (List.subset_append_left _ _)
    · exact (ih (by omega) s hs).mono (List.subset_append_right _ _)

/-- Where regions are missing, every free segment is shorter than the least size. -/
theorem spent_of_short (h : p.Sound) (hchain : chain.Joint) (hsize : 0 < size)
    (hcarve : carve chain p count size least greatest = .ok c ())
    (hc : Carved p c.free c.regions.toList) (hshort : c.regions.toList.length < count) :
    ∀ t ∈ c.free.segments, t.size < least := by
  obtain ⟨free, hfree, hplan⟩ := carve_plan h hchain hsize hcarve
  rw [hplan, List.length_append] at hshort
  intro t ht
  have hpos := Pool.nonempty_of_mem hc.sound ht
  -- the segment lies in one of those that the second pass began with
  have hout : ∀ x ∈ t.bytes, x ∈ free.bytes ∧ x ∉ regionBytes c.regions.toList := by
    intro x hx
    have hx := Pool.segment_bytes_subset ht hx
    rw [hc.bytes_eq, Finset.mem_sdiff] at hx
    refine ⟨?_, hx.2⟩
    rw [hfree.bytes_eq, Finset.mem_sdiff]
    refine ⟨hx.1, fun hin => hx.2 ?_⟩
    obtain ⟨r, hr, hxr⟩ := mem_regionBytes.1 hin
    exact mem_regionBytes.2 ⟨r, hplan ▸ List.mem_append_left _ hr, hxr⟩
  obtain ⟨s, hs, hle, hend⟩ := Pool.subset_segment hfree.sound hpos fun x hx => (hout x hx).1
  by_cases hlong : least ≤ s.size
  · have hmem : s ∈ segmentsFrom free least :=
      List.mem_filter.2 ⟨hs, decide_eq_true hlong⟩
    have hspent : Spent least s c.regions.toList :=
      (planEach_spend (by omega) s hmem).mono (hplan ▸ List.subset_append_right _ _)
    obtain ⟨rest, hrest, hin⟩ := hspent
    have hfirst : t.position ∈ t.bytes :=
      Segment.mem_bytes.2 ⟨Nat.le_refl _, Nat.lt_add_of_pos_right hpos⟩
    have hpast : rest ≤ t.position := by
      by_contra hlt
      refine (hout _ hfirst).2 (hin _ (Segment.mem_bytes.2 ⟨hle, ?_⟩) (Nat.not_le.1 hlt))
      omega
    omega
  · unfold Segment.finish at hend
    omega

/-! ## How much one segment gives -/

/-- How many regions of at least `least` and at most `greatest` bytes `length` bytes give, end to
end, each as long as can be. -/
def heldIn (least greatest length : Nat) : Nat :=
  length / greatest + if least ≤ length % greatest then 1 else 0

/-- What chunks of `size` bytes leave of `[start, limit)`. -/
def gaps (size limit : Nat) : Nat → List Nat → List Segment
  | start, [] => Segment.between start limit
  | start, place :: rest => Segment.between start place ++ gaps size limit (place + size) rest

theorem heldIn_of_lt {length : Nat} (hle : least ≤ greatest) (hlt : length < least) :
    heldIn least greatest length = 0 := by
  rw [heldIn, Nat.div_eq_of_lt (by omega), Nat.mod_eq_of_lt (by omega), if_neg (by omega)]

/-- The first region is as long as the bytes or the bound. -/
theorem heldIn_of_le {length : Nat} (hleast : 0 < least) (hle : least ≤ greatest)
    (hlong : least ≤ length) :
    heldIn least greatest length = heldIn least greatest (length - min length greatest) + 1 := by
  by_cases hmore : greatest ≤ length
  · rw [Nat.min_eq_right hmore, heldIn, heldIn, Nat.mod_eq_sub_mod hmore,
      Nat.div_eq_sub_div (by omega) hmore]
    omega
  · rw [Nat.min_eq_left (by omega), Nat.sub_self, heldIn_of_lt hle hleast, heldIn,
      Nat.div_eq_of_lt (by omega), Nat.mod_eq_of_lt (by omega), if_pos hlong]

theorem length_pieces (hleast : 0 < least) (hle : least ≤ greatest) :
    (pieces least greatest limit wanted start).length =
      min wanted (heldIn least greatest (limit - start)) := by
  induction wanted generalizing start with
  | zero => exact (Nat.zero_min _).symm
  | succ wanted ih =>
    unfold pieces
    by_cases hlong : least ≤ limit - start
    · rw [if_pos hlong, List.length_cons, ih, heldIn_of_le hleast hle hlong, ← Nat.sub_sub]
      omega
    · rw [if_neg hlong, heldIn_of_lt hle (Nat.not_le.1 hlong)]
      rfl

theorem length_planEach (plan : Segment → Nat → List Region) (held : Segment → Nat)
    (hplan : ∀ s wanted, (plan s wanted).length = min wanted (held s)) (segments : List Segment) :
    (planEach plan wanted segments).length =
      min wanted (Offset.total (segments.map held)) := by
  induction segments generalizing wanted with
  | nil => exact (Nat.min_zero _).symm
  | cons s rest ih =>
    rw [planEach, List.length_append, ih, hplan, List.map_cons, Offset.total]
    omega

/-- Segments below the least size give nothing, so it does not matter that they are left out. -/
theorem total_heldIn_filter (hle : least ≤ greatest) (segments : List Segment) :
    Offset.total ((segments.filter fun s => decide (least ≤ s.size)).map
        fun s => heldIn least greatest s.size) =
      Offset.total (segments.map fun s => heldIn least greatest s.size) := by
  induction segments with
  | nil => rfl
  | cons s rest ih =>
    by_cases hlong : least ≤ s.size
    · rw [List.filter_cons_of_pos (by simpa using hlong), List.map_cons, List.map_cons,
        Offset.total, Offset.total, ih]
    · rw [List.filter_cons_of_neg (by simpa using hlong), List.map_cons, Offset.total, ih,
        heldIn_of_lt hle (Nat.not_le.1 hlong), Nat.zero_add]

/-! ### Chunks and gaps -/

/-- Chunks of `size` bytes in order, each behind the one before, up to `limit`. -/
def Spaced (size limit : Nat) : Nat → List Nat → Prop
  | start, [] => start ≤ limit
  | start, place :: rest => start ≤ place ∧ Spaced size limit (place + size) rest

/-- A chunk is carved where there is room for it. -/
theorem place_within (hchain : chain.Joint) (hsize : 0 < size) (hlimit : limit < Offset.bound)
    (hroom : start + size ≤ limit) :
    start ≤ (chain.findMemory? start limit size).getD start ∧
      (chain.findMemory? start limit size).getD start + size ≤ limit := by
  cases hfound : chain.findMemory? start limit size with
  | none => exact ⟨Nat.le_refl _, hroom⟩
  | some place =>
    have hleast := hchain.findMemory?_leastOf hsize hlimit start
    obtain ⟨⟨hge, hend, -⟩, -⟩ := (hleast.eq_some_iff place).1 hfound
    exact ⟨hge, hend⟩

theorem spaced_places (hchain : chain.Joint) (hsize : 0 < size) (hlimit : limit < Offset.bound)
    (hstart : start ≤ limit) : Spaced size limit start (places chain size limit wanted start) := by
  induction wanted generalizing start with
  | zero => exact hstart
  | succ wanted ih =>
    unfold places
    split
    · next hroom =>
      obtain ⟨hge, hend⟩ := place_within hchain hsize hlimit hroom
      exact ⟨hge, ih hend⟩
    · exact hstart

theorem Spaced.le {chunks : List Nat} (h : Spaced size limit start chunks) : start ≤ limit := by
  induction chunks generalizing start with
  | nil => exact h
  | cons place rest ih =>
    have := ih h.2
    have := h.1
    omega

theorem Spaced.within {chunks : List Nat} (h : Spaced size limit start chunks) :
    ∀ place ∈ chunks, start ≤ place ∧ place + size ≤ limit := by
  induction chunks generalizing start with
  | nil => simp
  | cons first rest ih =>
    obtain ⟨hge, hrest⟩ := h
    intro place hplace
    rcases List.mem_cons.1 hplace with rfl | hplace
    · exact ⟨hge, hrest.le⟩
    · obtain ⟨hge', hend⟩ := ih hrest place hplace
      exact ⟨by omega, hend⟩

theorem gap_within {chunks : List Nat} (h : Spaced size limit start chunks) {g : Segment}
    (hg : g ∈ gaps size limit start chunks) :
    start ≤ g.position ∧ 0 < g.size ∧ g.finish ≤ limit := by
  induction chunks generalizing start with
  | nil =>
    obtain ⟨hlt, hposition, hfinish⟩ := Segment.mem_between.1 hg
    unfold Segment.finish at hfinish ⊢
    omega
  | cons place rest ih =>
    obtain ⟨hge, hrest⟩ := h
    rcases List.mem_append.1 hg with hg | hg
    · obtain ⟨hlt, hposition, hfinish⟩ := Segment.mem_between.1 hg
      have := hrest.le
      unfold Segment.finish at hfinish ⊢
      omega
    · obtain ⟨hge', hpos, hend⟩ := ih hrest hg
      exact ⟨by omega, hpos, hend⟩

/-- A byte between the ends lies in a gap or in a chunk. -/
theorem mem_gaps {chunks : List Nat} (h : Spaced size limit start chunks) (x : Nat) :
    (∃ g ∈ gaps size limit start chunks, x ∈ g.bytes) ↔
      start ≤ x ∧ x < limit ∧ ∀ place ∈ chunks, ¬ (place ≤ x ∧ x < place + size) := by
  have hbetween : ∀ a b, (∃ g ∈ Segment.between a b, x ∈ g.bytes) ↔ a ≤ x ∧ x < b := by
    intro a b
    constructor
    · rintro ⟨g, hg, hx⟩
      obtain ⟨-, rfl, rfl⟩ := Segment.mem_between.1 hg
      exact Segment.mem_bytes.1 hx
    · rintro ⟨hge, hlt⟩
      have hle : a ≤ b := hge.trans (Nat.le_of_lt hlt)
      have hfinish : Segment.finish ⟨a, b - a⟩ = b := Nat.add_sub_cancel' hle
      refine ⟨⟨a, b - a⟩, Segment.mem_between.2 ⟨hge.trans_lt hlt, rfl, hfinish⟩, ?_⟩
      exact Segment.mem_bytes.2 ⟨hge, by rwa [hfinish]⟩
  induction chunks generalizing start with
  | nil =>
    rw [gaps, hbetween]
    simp
  | cons place rest ih =>
    obtain ⟨hge, hrest⟩ := h
    have hend := hrest.le
    simp only [gaps, List.mem_append, or_and_right, exists_or, hbetween, ih hrest,
      List.forall_mem_cons]
    constructor
    · rintro (⟨hstart, hlt⟩ | ⟨hstart, hlt, hout⟩)
      · refine ⟨hstart, by omega, by omega, fun other hother => ?_⟩
        have := (hrest.within other hother).1
        omega
      · exact ⟨by omega, hlt, by omega, hout⟩
    · rintro ⟨hstart, hlt, hfirst, hout⟩
      by_cases hbefore : x < place
      · exact .inl ⟨hstart, hbefore⟩
      · exact .inr ⟨by omega, hlt, hout⟩

theorem gaps_sorted {chunks : List Nat} (hsize : 0 < size) (h : Spaced size limit start chunks) :
    (gaps size limit start chunks).Pairwise fun s t => s.finish < t.position := by
  induction chunks generalizing start with
  | nil => exact Segment.between_sorted _ _
  | cons place rest ih =>
    obtain ⟨-, hrest⟩ := h
    refine List.pairwise_append.2 ⟨Segment.between_sorted _ _, ih hrest, ?_⟩
    intro s hs t ht
    obtain ⟨-, -, hfinish⟩ := Segment.mem_between.1 hs
    have := (gap_within hrest ht).1
    omega

/-- After the first pass over one segment the pool lists the gaps. -/
theorem segments_gaps (hone : p.segments = [s]) (hsize : 0 < size) {chunks : List Nat}
    (hspaced : Spaced size s.finish s.position chunks)
    (hfree : Carved p free (chunks.map fun place => ⟨place, size⟩)) :
    free.segments = gaps size s.finish s.position chunks := by
  apply Pool.segments_eq_of_sorted hfree.sound (gaps_sorted hsize hspaced)
  · intro g hg
    exact (gap_within hspaced hg).2.1
  · intro x
    rw [mem_gaps hspaced, hfree.bytes_eq, Finset.mem_sdiff, mem_regionBytes, Pool.mem_bytes, hone]
    simp [Region.mem_bytes, and_assoc]

theorem finish_lt_bound (h : p.Sound) (hone : p.segments = [s]) : s.finish < Offset.bound := by
  obtain ⟨slot, hslot⟩ := (Pool.mem_segments h.toIndexed).1 (hone ▸ List.mem_singleton_self s)
  exact h.bounded _ _ hslot

/-- How many regions are carved out of one segment. -/
theorem length_carve (h : p.Sound) (hchain : chain.Joint) (hsize : 0 < size) (hleast : 0 < least)
    (hle : least ≤ greatest) (hone : p.segments = [s]) (hfits : size ≤ s.size)
    (hcarve : carve chain p count size least greatest = .ok c ()) :
    let chunks := places chain size s.finish count s.position
    c.regions.toList.length = min count (chunks.length + Offset.total
      ((gaps size s.finish s.position chunks).map fun g => heldIn least greatest g.size)) := by
  intro chunks
  have hlimit : s.finish < Offset.bound := finish_lt_bound h hone
  have hwholes : wholes chain p count size = chunks.map fun place => ⟨place, size⟩ := by
    unfold wholes segmentsFrom
    rw [hone, List.filter_cons_of_pos (by simpa using hfits), List.filter_nil, planEach, planEach,
      List.append_nil]
    rfl
  have hspaced : Spaced size s.finish s.position chunks :=
    spaced_places hchain hsize hlimit (Nat.le_add_right _ _)
  obtain ⟨free, hfree, hplan⟩ := carve_plan h hchain hsize hcarve
  rw [hwholes] at hfree hplan
  have hgaps := segments_gaps hone hsize hspaced hfree
  have hheld : ∀ g wanted, (restPlan least greatest g wanted).length =
      min wanted (heldIn least greatest g.size) := by
    intro g wanted
    rw [restPlan, length_pieces hleast hle, Segment.finish, Nat.add_sub_cancel_left]
  have hrests : (planEach (restPlan least greatest) (count - chunks.length)
      (segmentsFrom free least)).length = _ := length_planEach _ _ hheld _
  unfold segmentsFrom at hrests
  rw [total_heldIn_filter hle, hgaps] at hrests
  have hchunks : chunks.length ≤ count := length_places_le _ _ _ _ _
  rw [hplan, List.length_append, List.length_map, segmentsFrom, hgaps, hrests]
  omega

/-! ### Chunks that lie end to end -/

/-- If no chunk goes on to a later place in memory, there are as many as there is room for. -/
theorem length_places_of_straight
    (hstraight : ∀ i < wanted, (chain.findMemory? (start + i * size) limit size).getD
      (start + i * size) = start + i * size)
    (hroom : start + wanted * size ≤ limit) :
    (places chain size limit wanted start).length = wanted := by
  induction wanted generalizing start with
  | zero => rfl
  | succ wanted ih =>
    have hfirst := hstraight 0 (Nat.succ_pos _)
    rw [Nat.zero_mul, Nat.add_zero] at hfirst
    rw [Nat.succ_mul] at hroom
    unfold places
    rw [if_pos (by omega), hfirst]
    refine congrArg Nat.succ (ih (fun i hi => ?_) (by omega))
    have hnext := hstraight (i + 1) (by omega)
    rw [Nat.succ_mul, Nat.add_comm (i * size), ← Nat.add_assoc] at hnext
    exact hnext

/-- Inside one block every chunk stays where it is. -/
theorem findMemory?_in_block (hchain : chain.Joint) (hsize : 0 < size)
    (hlimit : limit < Offset.bound) {b : Block} (hb : b ∈ chain.blocks) (hstart : b.start ≤ start)
    (hend : limit ≤ b.finish) (hroom : start + size ≤ limit) :
    (chain.findMemory? start limit size).getD start = start := by
  cases hfound : chain.findMemory? start limit size with
  | none => rfl
  | some place =>
    have hleast := hchain.findMemory?_leastOf hsize hlimit start
    obtain ⟨⟨hge, hend', b', hb', hmemory, hle, hlt, -⟩, hfirst⟩ :=
      (hleast.eq_some_iff place).1 hfound
    -- the place lies in the block, so the block is in memory, and the search finds its own start
    obtain ⟨rest, hfrom⟩ := hchain.blocksFrom_of_mem hb (by omega) (by omega : place < b.finish)
    obtain ⟨rest', hfrom'⟩ := hchain.blocksFrom_of_mem hb' hle hlt
    have hsame : b' = b := by
      rw [hfrom] at hfrom'
      exact (List.cons_eq_cons.1 hfrom').1.symm
    subst hsame
    have hself : start ∈ Chain.windows chain.blocks start limit size :=
      ⟨Nat.le_refl _, hroom, b', hb', hmemory, hstart, by omega, by omega⟩
    exact Nat.le_antisymm (hfirst hself) hge

/-! ## Batches -/

section Batch

variable {a : Space} {h : Host} {regions : List Region}

/-- A batch that is answered asked for something that there is. -/
theorem allocateBatch_accepted (hcount : 0 < count)
    (hok : (a.allocateBatch h count least greatest).answer = .ok regions) :
    0 < least ∧ least ≤ greatest ∧
      a.preferredSize count least greatest * count < Offset.bound := by
  obtain ⟨hbounds, hlarge⟩ := allocateBatch_refused a h hcount least greatest
  by_cases hmeaningless : least = 0 ∨ greatest < least
  · rw [hbounds hmeaningless] at hok
    cases hok
  · have hleast : 0 < least := by omega
    have hle : least ≤ greatest := by omega
    refine ⟨hleast, hle, ?_⟩
    by_contra hproduct
    rw [hlarge hleast hle (Nat.not_lt.1 hproduct)] at hok
    cases hok

/-- The regions that a batch adds are those behind the end of the space before it. -/
theorem filter_fresh (hs : a.Sound) (hc : Carved a.free c.free c.regions.toList) (missing : Nat) :
    (c.regions.toList ++ tail a.logicalSize size missing).filter
        (fun r => decide (a.logicalSize ≤ r.offset)) = tail a.logicalSize size missing := by
  have hold : ∀ r ∈ c.regions.toList, ¬ decide (a.logicalSize ≤ r.offset) = true := by
    intro r hr hpast
    have hfirst : r.offset ∈ r.bytes :=
      Region.mem_bytes.2 ⟨Nat.le_refl _, Nat.lt_add_of_pos_right (hc.nonempty r hr)⟩
    have hlt := hs.below _ (hc.region_subset hr hfirst)
    exact absurd (of_decide_eq_true hpast) (Nat.not_le.2 hlt)
  have hnew : ∀ r ∈ tail a.logicalSize size missing, decide (a.logicalSize ≤ r.offset) = true := by
    intro r hr
    obtain ⟨i, -, rfl⟩ := mem_tail hr
    exact decide_eq_true (Nat.le_add_right _ _)
  rw [List.filter_append, List.filter_eq_nil_iff.2 hold, List.filter_eq_self.2 hnew,
    List.nil_append]

/-- A batch that lengthens the space leaves nothing free that it could have used, and the space gets
longer by just the regions behind its old end. -/
theorem allocateBatch_growth (hs : a.Sound) (hcount : 0 < count)
    (hok : (a.allocateBatch h count least greatest).answer = .ok regions) :
    let b := (a.allocateBatch h count least greatest).state.1
    let fresh := regions.filter fun r => decide (a.logicalSize ≤ r.offset)
    (b.logicalSize ≠ a.logicalSize → ∀ t ∈ b.free.segments, t.size < least) ∧
      b.logicalSize = a.logicalSize + a.preferredSize count least greatest * fresh.length ∧
      fresh = tail a.logicalSize (a.preferredSize count least greatest) fresh.length := by
  obtain ⟨hleast, hle, hsmall⟩ := allocateBatch_accepted hcount hok
  have hsize := (a.preferredSize_bounds count hle).1
  obtain ⟨c, hcarve, hc, -, heq⟩ := allocateBatch_eq hs h hcount hleast hle hsmall
  rw [heq] at hok ⊢
  obtain ⟨rfl, hfree, hlonger⟩ := completeBatch_ok hok
  intro b fresh
  have hfresh : fresh = tail a.logicalSize _ _ := filter_fresh hs hc _
  refine ⟨fun hgrown => ?_, ?_, ?_⟩
  · have hmissing : c.regions.toList.length < count := by
      by_contra hall
      rw [Nat.sub_eq_zero_of_le (Nat.not_lt.1 hall), Nat.mul_zero] at hlonger
      exact hgrown hlonger
    rw [show b.free = c.free from hfree]
    exact spent_of_short hs.pool hs.layout.joint (by omega) hcarve hc hmissing
  · rw [hfresh, length_tail]
    exact hlonger
  · rw [hfresh, length_tail]

/-- What a batch adds lies end to end. -/
theorem tiles_tail (start : Nat) (hsize : 0 < size) (count : Nat) :
    Tiles start ((tail start size count).map fun r => ⟨r.offset, r.size⟩)
      (start + size * count) := by
  induction count with
  | zero => exact rfl
  | succ count ih =>
    have hlast : tail start size (count + 1) =
        tail start size count ++ [⟨start + count * size, size⟩] := by
      rw [tail, List.range_succ, List.map_append]
      rfl
    rw [hlast, List.map_append, Nat.mul_succ, ← Nat.add_assoc]
    rw [Nat.mul_comm size count] at ih ⊢
    exact ih.concat hsize

/-- A batch is answered from the pool alone: neither the space gets longer nor the chain, and the
host is what it was. -/
structure FromPool (a : Space) (h : Host) (o : Outcome (Space × Host) (List Region)) : Prop where
  answered : ∃ regions, o.answer = .ok regions
  logical : o.state.1.logicalSize = a.logicalSize
  physical : o.state.1.physicalSize = a.physicalSize
  host : o.state.2 = h

/-- A batch grows for what is missing, and only for that. -/
theorem completeBatch_fromPool_iff (hsize : 0 < size) (free : Pool) (regions : List Region) :
    FromPool a h (completeBatch { a with free := free } h count size regions) ↔
      count ≤ regions.length := by
  constructor
  · rintro ⟨⟨all, hok⟩, hlogical, -, -⟩
    by_contra hshort
    obtain ⟨-, -, hlonger⟩ := completeBatch_ok hok
    have hmore : 0 < size * (count - regions.length) := Nat.mul_pos hsize (by omega)
    exact absurd (hlogical.symm.trans hlonger) (Nat.ne_of_lt (Nat.lt_add_of_pos_right hmore))
  · intro hall
    have heq : completeBatch { a with free := free } h count size regions =
        .ok ({ a with free := free }, h) regions := by
      unfold completeBatch
      exact if_pos (Nat.sub_eq_zero_of_le hall)
    rw [heq]
    exact ⟨⟨regions, rfl⟩, rfl, rfl, rfl⟩

/-- Bytes that are enough for the least sizes give each region its least size. -/
theorem le_share (hcount : 0 < count) (hfits : count * least ≤ size) : least ≤ size / count :=
  (Nat.le_div_iff_mul_le hcount).2 (by rwa [Nat.mul_comm])

/-- When one free segment serves a batch. -/
theorem allocateBatch_fromPool_iff (hs : a.Sound) (hcount : 0 < count) (hleast : 0 < least)
    (hle : least ≤ greatest) (hone : a.free.segments = [s]) (hfits : count * least ≤ s.size) :
    let chunk := min greatest (s.size / count)
    let chunks := places a.chain chunk s.finish count s.position
    FromPool a h (a.allocateBatch h count least greatest) ↔
      count ≤ chunks.length + Offset.total
        ((gaps chunk s.finish s.position chunks).map fun g => heldIn least greatest g.size) := by
  intro chunk chunks
  have hshare := le_share hcount hfits
  have hfree : a.free.freeBytes = s.size := by
    rw [hs.pool.counter, hone]
    rfl
  have hpreferred : a.preferredSize count least greatest = chunk := by
    unfold preferredSize
    rw [hfree, Nat.max_eq_right hshare]
  have hchunk : 0 < chunk := by omega
  have hroom : chunk * count ≤ s.size :=
    (Nat.mul_le_mul_right _ (Nat.min_le_right _ _)).trans (Nat.div_mul_le_self _ _)
  have hbound : s.size < Offset.bound := hfree ▸ hs.pool.freeBytes_lt
  have hchunk' : chunk ≤ s.size := (Nat.le_mul_of_pos_right _ hcount).trans hroom
  obtain ⟨c, hcarve, -, -, heq⟩ := allocateBatch_eq hs h hcount hleast hle
    (show a.preferredSize count least greatest * count < _ by
      rw [hpreferred]
      exact hroom.trans_lt hbound)
  rw [hpreferred] at hcarve heq
  have hlength := length_carve hs.pool hs.layout.joint hchunk hleast hle hone hchunk' hcarve
  rw [heq, completeBatch_fromPool_iff hchunk, hlength, Nat.le_min]
  exact and_iff_right (Nat.le_refl _)

/-- A segment without a way on to a later place in memory serves a batch. -/
theorem fromPool_of_straight (hs : a.Sound) (hcount : 0 < count) (hleast : 0 < least)
    (hle : least ≤ greatest) (hone : a.free.segments = [s]) (hfits : count * least ≤ s.size)
    (hstraight : ∀ i < count, (a.chain.findMemory? (s.position + i * min greatest (s.size / count))
      s.finish (min greatest (s.size / count))).getD
        (s.position + i * min greatest (s.size / count)) =
          s.position + i * min greatest (s.size / count)) :
    FromPool a h (a.allocateBatch h count least greatest) := by
  apply (allocateBatch_fromPool_iff hs hcount hleast hle hone hfits).2
  have hroom : count * min greatest (s.size / count) ≤ s.size :=
    (Nat.mul_le_mul_left _ (Nat.min_le_right _ _)).trans (Nat.mul_div_le _ _)
  rw [length_places_of_straight hstraight (Nat.add_le_add_left hroom _)]
  exact Nat.le_add_right _ _

/-- So does a segment in one block. -/
theorem fromPool_of_block (hs : a.Sound) (hcount : 0 < count) (hleast : 0 < least)
    (hle : least ≤ greatest) (hone : a.free.segments = [s]) (hfits : count * least ≤ s.size)
    {b : Block} (hb : b ∈ a.chain.blocks) (hstart : b.start ≤ s.position)
    (hend : s.finish ≤ b.finish) : FromPool a h (a.allocateBatch h count least greatest) := by
  apply fromPool_of_straight hs hcount hleast hle hone hfits
  have hshare := le_share hcount hfits
  have hlimit : s.finish < Offset.bound := finish_lt_bound hs.pool hone
  intro i hi
  have hroom : (i + 1) * min greatest (s.size / count) ≤ s.size :=
    (Nat.mul_le_mul hi (Nat.min_le_right _ _)).trans (Nat.mul_div_le _ _)
  rw [Nat.succ_mul] at hroom
  apply findMemory?_in_block hs.layout.joint (by omega) hlimit hb (by omega) hend
  unfold Segment.finish
  omega

end Batch

end SpillStorage.Space
