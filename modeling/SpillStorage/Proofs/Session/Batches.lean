import SpillStorage.Proofs.Session.Sound
import SpillStorage.Proofs.Space.Carving

/-!
Batches in a session.

What is proved:
  1. `batch_as_promised`: at any point of a session, a batch is refused for its arguments and
     changes nothing, or it takes what the pool has without fail, and what it answers is what was
     asked for.
  2. `batch_grows_last`: a batch lengthens the space only when the pool is used up, and by just the
     regions that it adds.
  3. `batch_from_one_segment`: when a single free segment with bytes enough serves a batch. It may
     not: chunks go on to places in memory, and what they pass over may be too short for a region
     (`batch_outgrows_one_segment`).
-/

namespace SpillStorage.Session

open Space (regionBytes)

/-- A batch answers what it promises, at any point of a session, for the space of any tenant. The
preferred size is an even share of the free bytes, kept within the bounds. Bounds that no size
meets, or regions that would make up more than offsets can count, are an invalid range, and nothing
changes. Otherwise every region that is carved can be taken out of the pool; and if the batch is
answered, there are exactly `count` regions, each between the bounds and apart from the others, each
of bytes that were free or that the space was lengthened by; and what is free afterwards are the
bytes that were free before, without those of the regions. -/
theorem batch_as_promised {settings : Settings} {registry : Registry}
    (hregistry : Registry.ofSettings settings = .ok registry) (disk : Disk) (heap : Nat)
    (actions : List Action) {name : String} {l : Lodging}
    (hl : ((ofHost ⟨registry, disk, heap⟩).run actions).lodging? name = some l) {count : Nat}
    (hcount : 0 < count) (least greatest : Nat) :
    let s := l.tenant.inner
    let h := ((ofHost ⟨registry, disk, heap⟩).run actions).hostOf l
    let size := min greatest (max least (s.freeSpace / count))
    let batch := s.allocateBatch h count least greatest
    (least = 0 ∨ greatest < least ∨ Offset.bound ≤ size * count →
      ∃ offset length, batch = .fail (s, h) (.invalidRange offset length)) ∧
    (0 < least → least ≤ greatest → size * count < Offset.bound →
      (Space.carve s.chain s.free count size least greatest).answer = .ok () ∧
      ∀ regions, batch.answer = .ok regions →
        let s' := batch.state.1
        regions.length = count ∧ (∀ r ∈ regions, least ≤ r.size ∧ r.size ≤ greatest) ∧
          (regions.Pairwise fun r t => Disjoint r.bytes t.bytes) ∧
          (∀ r ∈ regions,
            r.bytes ⊆ s.free.bytes ∨ r.bytes ⊆ Finset.Ico s.logicalSize s'.logicalSize) ∧
          s'.free.bytes = s.free.bytes \ regionBytes regions) := by
  intro s h size batch
  obtain ⟨hsound, -⟩ := (sound_ofHost hregistry disk heap).run actions
  have hs : s.Sound := (hsound.parted hl).sound l List.mem_cons_self
  obtain ⟨hbounds, hlarge⟩ := Space.allocateBatch_refused s h hcount least greatest
  refine ⟨?_, ?_⟩
  · intro hrefused
    by_cases hmeaningless : least = 0 ∨ greatest < least
    · exact ⟨_, _, hbounds hmeaningless⟩
    · obtain ⟨hleast, hle⟩ := not_or.1 hmeaningless
      have hproduct : Offset.bound ≤ size * count := by
        rcases hrefused with hzero | hlt | hproduct
        · exact absurd hzero hleast
        · exact absurd hlt hle
        · exact hproduct
      exact ⟨_, _, hlarge (Nat.pos_of_ne_zero hleast) (Nat.not_lt.1 hle) hproduct⟩
  · intro hleast hle hsmall
    obtain ⟨c, hcarve, -⟩ := Space.allocateBatch_eq hs h hcount hleast hle hsmall
    refine ⟨?_, fun regions hok => Space.allocateBatch_promise hs hcount hleast hle hsmall hok⟩
    exact congrArg Outcome.answer hcarve

/-- Three memory blocks, and a free range over the border of the last two. The preferred size is
five: three regions of it are carved where they lie in one block, one of four bytes fills a gap, and
two are new. A batch that would hold more than offsets can count is refused. -/
theorem batch_as_promised_fragments :
    let actions : List Action := [.openSpace "a" true {}, .onSpace "a" (.extend 16),
      .onSpace "a" (.extend 16), .onSpace "a" (.extend 8), .onSpace "a" (.release 0 3),
      .onSpace "a" (.release 4 3), .onSpace "a" (.release 8 3), .onSpace "a" (.release 12 4),
      .onSpace "a" (.release 20 20)]
    let σ := (ofHost ⟨⟨Settings.exact [⟨Path.ofString "/tmp", none⟩] 4096, 0, [0], 0⟩,
      Disk.standard, 64⟩).run actions
    let regions : List Region := [⟨20, 5⟩, ⟨25, 5⟩, ⟨32, 5⟩, ⟨12, 4⟩, ⟨40, 5⟩, ⟨45, 5⟩]
    ∃ l, σ.lodging? "a" = some l ∧
      (l.tenant.inner.allocateBatch (σ.hostOf l) 6 4 9).answer = .ok regions ∧
      (regions.Pairwise fun r t => Disjoint r.bytes t.bytes) ∧
      (l.tenant.inner.allocateBatch (σ.hostOf l) 6 4 9).state.1.free.bytes =
        l.tenant.inner.free.bytes \ regionBytes regions ∧
      ∃ offset length, l.tenant.inner.allocateBatch (σ.hostOf l) 6 (Nat.pow 2 62) (Nat.pow 2 63) =
        .fail (l.tenant.inner, σ.hostOf l) (.invalidRange offset length) := by
  intro actions σ regions
  have hregistry : Registry.ofSettings (Settings.exact [⟨Path.ofString "/tmp", none⟩] 4096) =
    .ok ⟨Settings.exact [⟨Path.ofString "/tmp", none⟩] 4096, 0, [0], 0⟩ := rfl
  obtain ⟨l, hl, hanswer, hfree⟩ : ∃ l, σ.lodging? "a" = some l ∧
      (l.tenant.inner.allocateBatch (σ.hostOf l) 6 4 9).answer.toOption = some regions ∧
      l.tenant.inner.freeSpace = 33 :=
    ⟨_, rfl, by decide +kernel, by decide +kernel⟩
  have hok := eq_ok_of_toOption hanswer
  have hpromise := (batch_as_promised hregistry Disk.standard 64 actions hl
    (show 0 < 6 by decide) 4 9).2 (by decide) (by decide) (by rw [hfree]; decide)
  obtain ⟨-, -, hdisjoint, -, hbytes⟩ := hpromise.2 regions hok
  have hrefused := (batch_as_promised hregistry Disk.standard 64 actions hl
    (show 0 < 6 by decide) (Nat.pow 2 62) (Nat.pow 2 63)).1 (.inr (.inr (by rw [hfree]; decide)))
  exact ⟨l, hl, hok, hdisjoint, hbytes, hrefused⟩

/-- A batch grows only when the pool is used up, at any point of a session, for the space of any
tenant. If the space got longer, no free segment has the least size any more. It got longer by the
preferred size for each of the regions behind its old end, and these have that size and lie end to
end, in order, from the old end to the new one. If it did not get longer, all regions are of bytes
that were free. -/
theorem batch_grows_last {settings : Settings} {registry : Registry}
    (hregistry : Registry.ofSettings settings = .ok registry) (disk : Disk) (heap : Nat)
    (actions : List Action) {name : String} {l : Lodging}
    (hl : ((ofHost ⟨registry, disk, heap⟩).run actions).lodging? name = some l) {count : Nat}
    (hcount : 0 < count) {least greatest : Nat} {regions : List Region}
    (hok : (l.tenant.inner.allocateBatch (((ofHost ⟨registry, disk, heap⟩).run actions).hostOf l)
      count least greatest).answer = .ok regions) :
    let s := l.tenant.inner
    let h := ((ofHost ⟨registry, disk, heap⟩).run actions).hostOf l
    let size := min greatest (max least (s.freeSpace / count))
    let s' := (s.allocateBatch h count least greatest).state.1
    let fresh := regions.filter fun r => decide (s.logicalSize ≤ r.offset)
    (s'.logicalSize ≠ s.logicalSize →
      (∀ segment ∈ s'.free.segments, segment.size < least) ∧
        s'.logicalSize = s.logicalSize + size * fresh.length ∧ (∀ r ∈ fresh, r.size = size) ∧
        Tiles s.logicalSize (fresh.map fun r => ⟨r.offset, r.size⟩) s'.logicalSize) ∧
    (s'.logicalSize = s.logicalSize →
      regions.length = count ∧ ∀ r ∈ regions, r.bytes ⊆ s.free.bytes) := by
  intro s h size s' fresh
  have hs : s.Sound := (stands_run hregistry disk heap actions hl).sound
  obtain ⟨hleast, hle, hsmall⟩ := Space.allocateBatch_accepted hcount hok
  obtain ⟨hspent, hlonger, hfresh⟩ := Space.allocateBatch_growth hs hcount hok
  have hsize : 0 < size := by
    have := (s.preferredSize_bounds count hle).1
    exact hleast.trans_le this
  refine ⟨fun hgrown => ⟨hspent hgrown, hlonger, ?_, ?_⟩, fun hsame => ?_⟩
  · intro r hr
    rw [show fresh = Space.tail s.logicalSize size fresh.length from hfresh] at hr
    obtain ⟨i, -, rfl⟩ := Space.mem_tail hr
    rfl
  · have htiles := Space.tiles_tail s.logicalSize hsize fresh.length
    rw [← show fresh = Space.tail s.logicalSize size fresh.length from hfresh] at htiles
    rw [show s'.logicalSize = s.logicalSize + size * fresh.length from hlonger]
    exact htiles
  · obtain ⟨hlength, hsizes, -, hfrom, -⟩ :=
      Space.allocateBatch_promise hs hcount hleast hle hsmall hok
    refine ⟨hlength, fun r hr => ?_⟩
    -- a region has bytes, and there are none between the old end and the new one
    rcases hfrom r hr with hfree | hnew
    · exact hfree
    · have hpos : 0 < r.size := hleast.trans_le (hsizes r hr).1
      have hfirst := hnew (Region.mem_bytes.2 ⟨Nat.le_refl _, Nat.lt_add_of_pos_right hpos⟩)
      rw [Finset.mem_Ico] at hfirst
      exact absurd hfirst.2 (Nat.not_lt.2 (hsame.le.trans hfirst.1))

/-- Three memory blocks and free ranges in them. Six regions are more than the pool has, and two are
new; three are not, and none is. -/
theorem batch_grows_last_fragments :
    let actions : List Action := [.openSpace "a" true {}, .onSpace "a" (.extend 16),
      .onSpace "a" (.extend 16), .onSpace "a" (.extend 8), .onSpace "a" (.release 0 3),
      .onSpace "a" (.release 4 3), .onSpace "a" (.release 8 3), .onSpace "a" (.release 12 4),
      .onSpace "a" (.release 20 20)]
    let σ := (ofHost ⟨⟨Settings.exact [⟨Path.ofString "/tmp", none⟩] 4096, 0, [0], 0⟩,
      Disk.standard, 64⟩).run actions
    ∃ l, σ.lodging? "a" = some l ∧
      (∀ segment ∈ (l.tenant.inner.allocateBatch (σ.hostOf l) 6 4 9).state.1.free.segments,
        segment.size < 4) ∧
      Tiles 40 [⟨40, 5⟩, ⟨45, 5⟩]
        (l.tenant.inner.allocateBatch (σ.hostOf l) 6 4 9).state.1.logicalSize ∧
      ∃ regions, (l.tenant.inner.allocateBatch (σ.hostOf l) 2 4 9).answer = .ok regions ∧
        regions.length = 2 ∧ ∀ r ∈ regions, r.bytes ⊆ l.tenant.inner.free.bytes := by
  intro actions σ
  have hregistry : Registry.ofSettings (Settings.exact [⟨Path.ofString "/tmp", none⟩] 4096) =
    .ok ⟨Settings.exact [⟨Path.ofString "/tmp", none⟩] 4096, 0, [0], 0⟩ := rfl
  obtain ⟨l, hl, hlonger, hgrown, hfits, hkept⟩ : ∃ l, σ.lodging? "a" = some l ∧
      (l.tenant.inner.allocateBatch (σ.hostOf l) 6 4 9).answer.toOption =
        some [⟨20, 5⟩, ⟨25, 5⟩, ⟨32, 5⟩, ⟨12, 4⟩, ⟨40, 5⟩, ⟨45, 5⟩] ∧
      (l.tenant.inner.logicalSize = 40 ∧
        (l.tenant.inner.allocateBatch (σ.hostOf l) 6 4 9).state.1.logicalSize = 50) ∧
      (l.tenant.inner.allocateBatch (σ.hostOf l) 2 4 9).answer.toOption =
        some [⟨20, 9⟩, ⟨29, 9⟩] ∧
      (l.tenant.inner.allocateBatch (σ.hostOf l) 2 4 9).state.1.logicalSize =
        l.tenant.inner.logicalSize :=
    ⟨_, rfl, by decide +kernel, by decide +kernel, by decide +kernel, by decide +kernel⟩
  obtain ⟨hspent, -, -, htiles⟩ := (batch_grows_last hregistry Disk.standard 64 actions hl
    (show 0 < 6 by decide) (eq_ok_of_toOption hlonger)).1 (by rw [hgrown.1, hgrown.2]; decide)
  have hreused := (batch_grows_last hregistry Disk.standard 64 actions hl
    (show 0 < 2 by decide) (eq_ok_of_toOption hfits)).2 hkept
  rw [hgrown.1] at htiles
  exact ⟨l, hl, hspent, htiles, _, eq_ok_of_toOption hfits, hreused⟩

/-- When a single free segment with bytes enough for the least sizes serves a batch, at any point of
a session, for the space of any tenant, whatever blocks lie under the segment and whether the space
may grow or not. The chunks have an even share of the segment, or the greatest size if that is less.
Each is carved at the first place from the end of the one before where it lies in memory, or right
there; the gaps that this leaves give regions as long as can be. The batch is answered with the size
of the space, its chain and its host unchanged exactly if the chunks and the regions in gaps are as
many as were asked for. So it is whenever the search finds no place in memory later than the end of
the chunk before, and that is so where the segment lies in one block. -/
theorem batch_from_one_segment {settings : Settings} {registry : Registry}
    (hregistry : Registry.ofSettings settings = .ok registry) (disk : Disk) (heap : Nat)
    (actions : List Action) {name : String} {l : Lodging}
    (hl : ((ofHost ⟨registry, disk, heap⟩).run actions).lodging? name = some l) {segment : Segment}
    (hone : l.tenant.inner.free.segments = [segment]) {count least greatest : Nat}
    (hcount : 0 < count) (hleast : 0 < least) (hle : least ≤ greatest)
    (hfits : count * least ≤ segment.size) :
    let s := l.tenant.inner
    let h := ((ofHost ⟨registry, disk, heap⟩).run actions).hostOf l
    let batch := s.allocateBatch h count least greatest
    let chunk := min greatest (segment.size / count)
    let chunks := Space.places s.chain chunk segment.finish count segment.position
    let gaps := Space.gaps chunk segment.finish segment.position chunks
    (Space.FromPool s h batch ↔ count ≤ chunks.length +
      Offset.total (gaps.map fun gap => Space.heldIn least greatest gap.size)) ∧
    ((∀ i < count, ∀ place, s.chain.findMemory? (segment.position + i * chunk) segment.finish
        chunk = some place → place = segment.position + i * chunk) →
      Space.FromPool s h batch) ∧
    ((∃ b ∈ s.chain.blocks, b.start ≤ segment.position ∧ segment.finish ≤ b.finish) →
      Space.FromPool s h batch) := by
  intro s h batch chunk chunks gaps
  have hs : s.Sound := (stands_run hregistry disk heap actions hl).sound
  refine ⟨Space.allocateBatch_fromPool_iff hs hcount hleast hle hone hfits, fun hsearch => ?_, ?_⟩
  · apply Space.fromPool_of_straight hs hcount hleast hle hone hfits
    intro i hi
    cases hfound : s.chain.findMemory? (segment.position + i * chunk) segment.finish chunk with
    | none => rfl
    | some place => exact hsearch i hi place hfound
  · rintro ⟨b, hb, hstart, hend⟩
    exact Space.fromPool_of_block hs hcount hleast hle hone hfits hb hstart hend

/-- Three memory blocks, all of them free. Five chunks of six bytes go around the borders, and the
sixth region lies in front of one. -/
theorem batch_from_one_segment_borders :
    let actions : List Action := [.openSpace "a" true {}, .onSpace "a" (.extend 16),
      .onSpace "a" (.extend 16), .onSpace "a" (.extend 8), .onSpace "a" (.release 0 40)]
    let σ := (ofHost ⟨⟨Settings.exact [⟨Path.ofString "/tmp", none⟩] 4096, 0, [0], 0⟩,
      Disk.standard, 64⟩).run actions
    ∃ l, σ.lodging? "a" = some l ∧
      Space.FromPool l.tenant.inner (σ.hostOf l)
        (l.tenant.inner.allocateBatch (σ.hostOf l) 6 4 9) ∧
      Space.places l.tenant.inner.chain 6 40 6 0 = [0, 6, 16, 22, 32] := by
  intro actions σ
  have hregistry : Registry.ofSettings (Settings.exact [⟨Path.ofString "/tmp", none⟩] 4096) =
    .ok ⟨Settings.exact [⟨Path.ofString "/tmp", none⟩] 4096, 0, [0], 0⟩ := rfl
  obtain ⟨l, hl, hone, hplaces⟩ : ∃ l, σ.lodging? "a" = some l ∧
      l.tenant.inner.free.segments = [⟨0, 40⟩] ∧
      Space.places l.tenant.inner.chain 6 40 6 0 = [0, 6, 16, 22, 32] :=
    ⟨_, rfl, by decide +kernel, by decide +kernel⟩
  have hserved := batch_from_one_segment hregistry Disk.standard 64 actions hl hone
    (show 0 < 6 by decide) (show 0 < 4 by decide) (show 4 ≤ 9 by decide) (by decide)
  refine ⟨l, hl, hserved.1.2 ?_, hplaces⟩
  show 6 ≤ (Space.places l.tenant.inner.chain 6 40 6 0).length + Offset.total ((Space.gaps 6 40 0
    (Space.places l.tenant.inner.chain 6 40 6 0)).map fun gap => Space.heldIn 4 9 gap.size)
  rw [hplaces]
  decide

/-- Ten free bytes in two memory blocks, and two regions of at least four bytes asked for. The first
chunk goes to the second block, and three bytes before it and two behind it are left. So the batch
lacks a region, and where there is no room it fails. -/
theorem batch_outgrows_one_segment :
    let actions : List Action := [.openSpace "a" true {}, .onSpace "a" (.extend 3),
      .onSpace "a" (.extend 7), .onSpace "a" (.release 0 10)]
    let registry : Registry := ⟨Settings.exact [] 10, 0, [], 0⟩
    let σ := (ofHost ⟨registry, Disk.standard, 64⟩).run actions
    Registry.ofSettings (Settings.exact [] 10) = .ok registry ∧
      ∃ l, σ.lodging? "a" = some l ∧ l.tenant.inner.free.segments = [⟨0, 10⟩] ∧ 2 * 4 ≤ 10 ∧
        Space.places l.tenant.inner.chain 5 10 2 0 = [3] ∧
        (l.tenant.inner.allocateBatch (σ.hostOf l) 2 4 5).answer.toOption = none :=
  ⟨rfl, _, rfl, by decide +kernel, by decide, by decide +kernel, by decide +kernel⟩

end SpillStorage.Session
