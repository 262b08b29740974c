import SpillStorage.Space.Report
import SpillStorage.Proofs.Chain.Layout
import SpillStorage.Proofs.Pool.Audit

/-!
When the parts of a space agree.

What is proved:
  1. `sound_create`: a space is opened sound.
  2. `Sound.audit_eq`: the audit of a sound space finds nothing.

`Sound` speaks of the space alone, so it survives whatever other spaces do to registry and disk.
-/

namespace SpillStorage.Space

/-- The parts of a space agree. -/
structure Sound (s : Space) : Prop where
  pool : s.free.Sound
  below : ∀ x ∈ s.free.bytes, x < s.logicalSize
  covered : s.logicalSize ≤ s.chain.size
  bounded : s.logicalSize < Offset.bound
  layout : s.chain.Layout s.files.files
  memory : s.chain.memoryBytes false = s.cacheUsage
  file : s.chain.fileBytes = s.files.totalSize

/-- What a new space consists of. -/
theorem create_ok {r r' : Registry} {options : SpaceOptions} {s : Space}
    (h : create r options = .ok (s, r')) :
    ∃ stem, r' = r.enroll.2 ∧ s = ⟨r.enroll.1, match options.initial with
      | some buffer => Chain.empty.pushMemory buffer true
      | none => .empty, .empty stem, .empty, 0, 0, options.growable⟩ := by
  unfold create at h
  split at h
  · cases h
  · next stem _ =>
    cases h
    exact ⟨stem, rfl, rfl⟩

theorem sound_create {r r' : Registry} {options : SpaceOptions} {s : Space}
    (h : create r options = .ok (s, r')) : s.Sound := by
  obtain ⟨stem, -, rfl⟩ := create_ok h
  have hbound : 0 < Offset.bound := by decide
  have hnone : ∀ x ∈ Pool.empty.bytes, x < 0 := fun x hx => absurd hx (Finset.notMem_empty x)
  cases options.initial with
  | none =>
    exact ⟨Pool.sound_empty, hnone, Nat.zero_le _, hbound, Chain.layout_empty, rfl, rfl⟩
  | some buffer =>
    refine ⟨Pool.sound_empty, hnone, Nat.zero_le _, hbound,
      Chain.layout_empty.pushMemory fun _ => rfl, ?_, ?_⟩
    · exact Chain.memoryBytes_pushMemory _ _ _ _
    · exact Chain.fileBytes_pushMemory _ _ _

/-- The bytes that the buffers hold play no part in it. -/
theorem Sound.of_outline {s : Space} (h : s.Sound) {chain : Chain}
    (ho : chain.outline = s.chain.outline) : Sound { s with chain := chain } := by
  refine ⟨h.pool, h.below, ?_, h.bounded, h.layout.of_outline ho, ?_, ?_⟩
  · exact h.covered.trans (Nat.le_of_eq (Chain.size_of_outline ho).symm)
  · rw [← Chain.memoryBytes_outline, ho, Chain.memoryBytes_outline]
    exact h.memory
  · rw [← Chain.fileBytes_outline, ho, Chain.fileBytes_outline]
    exact h.file

/-- A pool whose bytes lie in the space can stand in for the one there was. -/
theorem Sound.withPool {s : Space} (h : s.Sound) {free : Pool} (hfree : free.Sound)
    (hbelow : ∀ x ∈ free.bytes, x < s.logicalSize) : Sound { s with free := free } :=
  ⟨hfree, hbelow, h.covered, h.bounded, h.layout, h.memory, h.file⟩

/-! ## The audit -/

theorem finish_le_of_below {p : Pool} (h : p.Sound) {limit : Nat}
    (hbelow : ∀ x ∈ p.bytes, x < limit) :
    ∀ s ∈ p.segments, s.finish ≤ limit := by
  intro s hs
  obtain ⟨slot, hslot⟩ := (Pool.mem_segments h.toIndexed).1 hs
  have hsize := h.nonempty _ _ hslot
  have hlast : s.finish - 1 ∈ s.bytes := by
    rw [Segment.mem_bytes]
    unfold Segment.finish
    omega
  have := hbelow _ (Pool.segment_bytes_subset hs hlast)
  omega

theorem blockFlaws_eq_nil {blocks : List Block} {start finish : Nat}
    (h : Tiles start (blocks.map Block.span) finish) : blockFlaws start blocks = [] := by
  induction blocks generalizing start with
  | nil => rfl
  | cons b rest ih =>
    obtain ⟨hstart, hsize, hrest⟩ := h
    simp only [Block.span] at hstart hsize
    have hnext : blockFlaws b.finish rest = [] := ih hrest
    rw [blockFlaws, Pool.flawIf_eq_nil_iff.2 (by simp [hstart]),
      Pool.flawIf_eq_nil_iff.2 (by simp; omega), hnext]
    rfl

theorem coveredBytes_eq {blocks : List Block} {finish : Nat}
    (h : EndToEnd 0 (blocks.map Block.span) finish) : coveredBytes blocks = finish := by
  unfold coveredBytes
  cases hlast : blocks.getLast? with
  | none =>
    rw [List.getLast?_eq_none_iff.1 hlast] at h
    exact h
  | some b =>
    obtain ⟨front, hfront⟩ := List.getLast?_eq_some_iff.1 hlast
    rw [hfront, List.map_append] at h
    obtain ⟨middle, -, -, hfinish⟩ := EndToEnd.append_iff.1 h
    exact hfinish

theorem Sound.flaws_eq_nil {s : Space} (h : s.Sound) : s.flaws = [] := by
  rw [flaws, Pool.audit_eq_nil h.pool (finish_le_of_below h.pool h.below),
    blockFlaws_eq_nil h.layout.spans, coveredBytes_eq h.layout.joint,
    Pool.flawIf_eq_nil_iff.2 (by simp), Pool.flawIf_eq_nil_iff.2 (by simpa using h.covered),
    Pool.flawIf_eq_nil_iff.2 (by simp [h.memory]),
    Pool.flawIf_eq_nil_iff.2 (by simp [h.file])]
  rfl

/-- The audit of a sound space finds nothing, and counts the bytes that the pool lists. -/
theorem Sound.audit_eq {s : Space} (h : s.Sound) :
    s.audit = ⟨true, Offset.total (s.free.segments.map Segment.size), []⟩ := by
  rw [audit, h.flaws_eq_nil, h.pool.counter]
  rfl

end SpillStorage.Space
