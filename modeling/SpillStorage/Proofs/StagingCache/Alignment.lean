import SpillStorage.Proofs.StagingCache.Steps

/-!
Where a staging cache puts its slots.

What is proved:
  1. `Steps.aligned`: while every run of bytes in use ends at a multiple of the alignment, slots
     start at one, and this stays so.
  2. `Talks.aligned`: hence every offset that is answered is a multiple of the alignment.
  3. `Aligned.adopt`: it is so from the beginning if the free segments of the space start at
     multiples of the alignment. The size of the space alone does not see to that.
-/

namespace SpillStorage.StagingCache

open Space

/-- The offset in an answer. -/
def Reply.offset? : Reply → Option Nat
  | .done => none
  | .place offset => some offset
  | .ref r => some r.offset

/-- The space ends at a multiple of the alignment, so does every run of bytes in use, and slots
start at one. -/
structure Aligned (c : StagingCache) : Prop where
  length : c.alignment ∣ c.space.logicalSize
  ends : ∀ x ∈ c.space.used, x + 1 ∉ c.space.used → c.alignment ∣ x + 1
  items : ∀ {item size}, c.size? item = some size → c.alignment ∣ item.offset

namespace Aligned

variable {base : Finset Nat} {a b : StagingCache × Host} {item : Item} {size : Nat}
  {bytes : List UInt8}

theorem kept (hal : Aligned a.1) (h : Kept a b) : Aligned b.1 := by
  obtain ⟨size, hmultiple, hidles⟩ := h.idles
  have hused : b.1.space.used = a.1.space.used := hidles.used
  refine ⟨?_, ?_, ?_⟩
  · rw [h.alignment]
    rcases hidles.grown with hsame | hlonger
    · exact hsame ▸ hal.length
    · exact hlonger ▸ Nat.dvd_add hal.length hmultiple
  · rw [h.alignment, hused]
    exact hal.ends
  · intro item size hlive
    rw [h.alignment]
    exact hal.items ((h.sizes item).symm.trans hlive)

/-- A slot is handed out behind a byte in use, or at the end of the space. -/
theorem offset_of_placed (hal : Aligned a.1) (h : Placed a b item size bytes) :
    a.1.alignment ∣ item.offset := by
  rcases h.hands.start with hend | hbehind
  · exact hend ▸ hal.length
  · cases hoffset : item.offset with
    | zero => exact Nat.dvd_zero _
    | succ x =>
      have hx : x ∈ a.1.space.used := hbehind x hoffset.symm
      have hunused := Finset.disjoint_right.1 h.hands.obtains.unused
        (item.offset_mem_bytes h.positive)
      rw [hoffset] at hunused
      exact hal.ends x hx hunused

theorem placed (hal : Aligned a.1) (h : Placed a b item size bytes) : Aligned b.1 := by
  have hoffset := hal.offset_of_placed h
  have hused : b.1.space.used = a.1.space.used ∪ item.bytes size := h.hands.obtains.used
  refine ⟨?_, ?_, ?_⟩
  · rw [h.alignment]
    rcases h.hands.grown with hsame | hlonger
    · exact hsame ▸ hal.length
    · exact hlonger ▸ Nat.dvd_add hal.length h.multiple
  · intro x hx hnext
    rw [hused, Finset.mem_union] at hx
    rw [hused, Finset.mem_union, not_or] at hnext
    rw [h.alignment]
    rcases hx with hx | hx
    · exact hal.ends x hx hnext.1
    · -- the slot ends there
      have hend : x + 1 = item.offset + size := by
        have hout := hnext.2
        rw [Item.bytes, Finset.mem_Ico] at hx hout
        omega
      exact hend ▸ Nat.dvd_add hoffset h.multiple
  · intro other m hlive
    rw [h.alignment]
    rw [h.sizes] at hlive
    by_cases hother : other = item
    · exact hother ▸ hoffset
    · rw [if_neg hother] at hlive
      exact hal.items hlive

theorem written (hal : Aligned a.1) (h : Written a b item size bytes) : Aligned b.1 := by
  have hused : b.1.space.used = a.1.space.used := h.fills.used
  have hlength : b.1.space.logicalSize = a.1.space.logicalSize := h.fills.length
  refine ⟨?_, ?_, ?_⟩
  · rw [h.alignment, hlength]
    exact hal.length
  · rw [h.alignment, hused]
    exact hal.ends
  · intro other m hlive
    rw [h.alignment]
    exact hal.items ((h.sizes other).symm.trans hlive)

theorem dropped (hal : Aligned a.1) (h : Dropped a b item size) : Aligned b.1 := by
  refine ⟨?_, ?_, ?_⟩
  · rw [h.alignment, h.length]
    exact hal.length
  · intro x hx hnext
    rw [h.used, Finset.mem_sdiff] at hx
    rw [h.alignment]
    by_cases hin : x + 1 ∈ a.1.space.used
    · -- the slot that was returned starts there
      have hstart : x + 1 = item.offset := by
        have hslot : x + 1 ∈ item.bytes size := by
          by_contra hout
          exact hnext (h.used ▸ Finset.mem_sdiff.2 ⟨hin, hout⟩)
        have hout := hx.2
        rw [Item.bytes, Finset.mem_Ico] at hslot hout
        omega
      exact hstart ▸ hal.items h.live
    · exact hal.ends x hx.1 hin
  · intro other m hlive
    rw [h.alignment]
    rw [h.sizes] at hlive
    by_cases hother : other = item
    · rw [if_pos hother] at hlive
      cases hlive
    · rw [if_neg hother] at hlive
      exact hal.items hlive

theorem emptied (hal : Aligned a.1) (ha : InOrder base a) (h : Emptied base a b) :
    Aligned b.1 := by
  refine ⟨?_, ?_, ?_⟩
  · rw [h.alignment, h.length]
    exact hal.length
  · intro x hx hnext
    rw [h.used] at hx hnext
    rw [h.alignment]
    by_cases hin : x + 1 ∈ a.1.space.used
    · rcases (ha.slots.used _).1 hin with hbase | ⟨item, size, hlive, hslot⟩
      · exact absurd hbase hnext
      · have hstart : x + 1 = item.offset := by
          have hout := Finset.disjoint_left.1 (ha.slots.outside hlive) hx
          rw [Item.bytes, Finset.mem_Ico] at hslot hout
          omega
        exact hstart ▸ hal.items hlive
    · exact hal.ends x ((ha.slots.used x).2 (.inl hx)) hin
  · intro item size hlive
    rw [h.sizes] at hlive
    cases hlive

/-- A byte in use in front of one that is not: a free segment starts there, or the space ends. -/
theorem adopt {s : Space} {h h' : Host} {alignment : Nat} {c : StagingCache}
    (hadopt : adopt s h alignment = .ok h' c)
    (hstarts : ∀ segment ∈ s.free.segments, alignment ∣ segment.position) : Aligned c := by
  obtain ⟨-, -, hlength, rfl⟩ := adopt_ok hadopt
  refine ⟨hlength, ?_, fun {item size} hlive => ?_⟩
  · intro x hx hnext
    have hlt : x < s.logicalSize := lt_of_mem_used hx
    by_cases hend : x + 1 = s.logicalSize
    · exact hend ▸ hlength
    · have hfree : x + 1 ∈ s.free.bytes := by
        by_contra hout
        exact hnext (mem_used.2 ⟨show x + 1 < s.logicalSize by omega, hout⟩)
      obtain ⟨t, ht, hle, hfinish⟩ := Pool.mem_bytes.1 hfree
      have hstart : t.position = x + 1 := by
        by_contra hne
        exact (mem_used.1 hx).2 (Pool.mem_bytes.2 ⟨t, ht, by omega, by omega⟩)
      exact hstart ▸ hstarts t ht
  · cases item <;> cases hlive

end Aligned

/-- Every step answers an aligned offset, and keeps the cache aligned. -/
theorem Steps.aligned {base : Finset Nat} {a b : StagingCache × Host} {request : Request}
    {reply : Option Reply} (h : Steps base a request reply b) (ha : InOrder base a)
    (hal : Aligned a.1) : Aligned b.1 ∧
      ∀ offset, reply.bind Reply.offset? = some offset → a.1.alignment ∣ offset := by
  have none_answered : ∀ offset, none = some offset → a.1.alignment ∣ offset := by
    intro offset hoffset
    cases hoffset
  have one_answered : ∀ {answered}, a.1.alignment ∣ answered →
      ∀ offset, some answered = some offset → a.1.alignment ∣ offset := by
    intro answered hanswered offset hoffset
    exact Option.some.inj hoffset ▸ hanswered
  cases h with
  | refused h => exact ⟨hal.kept h, none_answered⟩
  | message h => exact ⟨hal.placed h, one_answered (hal.offset_of_placed h)⟩
  | stored h => exact ⟨hal.written (h [] (Nat.zero_le _) rfl), none_answered⟩
  | messageReleased h => exact ⟨hal.dropped h, none_answered⟩
  | blob hlength h => exact ⟨hal.placed h, one_answered (hal.offset_of_placed h)⟩
  | appended hfits h => exact ⟨hal.written h, one_answered (hal.items h.live)⟩
  | moved hlive hpayload hold hlength hplaced hdropped =>
    exact ⟨(hal.placed hplaced).dropped hdropped, one_answered (hal.offset_of_placed hplaced)⟩
  | blobReleased h => exact ⟨hal.dropped h, none_answered⟩
  | cleared h => exact ⟨hal.emptied ha h, none_answered⟩

theorem Steps.alignment_eq {base : Finset Nat} {a b : StagingCache × Host} {request : Request}
    {reply : Option Reply} (h : Steps base a request reply b) :
    b.1.alignment = a.1.alignment := by
  cases h with
  | refused h => exact h.alignment
  | message h => exact h.alignment
  | stored h => exact (h [] (Nat.zero_le _) rfl).alignment
  | messageReleased h => exact h.alignment
  | blob hlength h => exact h.alignment
  | appended hfits h => exact h.alignment
  | moved hlive hpayload hold hlength hplaced hdropped =>
    exact hdropped.alignment.trans hplaced.alignment
  | blobReleased h => exact h.alignment
  | cleared h => exact h.alignment

theorem Talks.alignment_eq {base : Finset Nat} {a b : StagingCache × Host}
    {log : List (Request × Option Reply)} (h : Talks a log b) (ha : InOrder base a) :
    b.1.alignment = a.1.alignment := by
  induction h with
  | start => rfl
  | ask htalks request ih =>
    have hsteps := steps_serve (htalks.inOrder ha) request
    exact hsteps.alignment_eq.trans ih
  | wait _ _ _ ih => exact ih

/-- Through every conversation: all offsets answered are aligned. -/
theorem Talks.aligned {base : Finset Nat} {a b : StagingCache × Host}
    {log : List (Request × Option Reply)} (h : Talks a log b) (ha : InOrder base a)
    (hal : Aligned a.1) : (Aligned b.1 ∧ b.1.alignment = a.1.alignment) ∧
      ∀ entry ∈ log, ∀ offset, entry.2.bind Reply.offset? = some offset →
        a.1.alignment ∣ offset := by
  induction h with
  | start => exact ⟨⟨hal, rfl⟩, fun entry hmem => by cases hmem⟩
  | ask htalks request ih =>
    obtain ⟨⟨halc, halignment⟩, hlog⟩ := ih
    have hsteps := steps_serve (htalks.inOrder ha) request
    obtain ⟨halb, hanswer⟩ := hsteps.aligned (htalks.inOrder ha) halc
    refine ⟨⟨halb, hsteps.alignment_eq.trans halignment⟩, ?_⟩
    intro entry hmem offset hoffset
    rcases List.mem_append.1 hmem with hmem | hmem
    · exact hlog entry hmem offset hoffset
    · rw [List.mem_singleton.1 hmem] at hoffset
      exact halignment ▸ hanswer offset hoffset
  | wait _ _ _ ih => exact ih

end SpillStorage.StagingCache
