import SpillStorage.Proofs.Session.Sound
import SpillStorage.Proofs.Pool.BestFit

/-!
What was just released is allocated next.

What is proved:
  1. `reuse_from_pool`: a range from the pool goes back to where it was cut from, and the pool hands
     it out again.
  2. `reuse_of_grown`: a range that the space grew by, once released, is part of the only free
     segment that is large enough.
  3. `immediate_reuse`: so at any point of a session an allocation can be undone and repeated, and
     the space does not grow by that.
-/

namespace SpillStorage

namespace Space

variable {s s₁ s₂ : Space} {h h₁ : Host} {size offset : Nat}

/-- What the pool has is allocated without growth. -/
theorem allocate_of_pool {free : Pool} (h : Host) (hsize : 0 < size)
    (hfree : s.free.allocate size = some (offset, free)) :
    s.allocate h size = .ok ({ s with free := free }, h) offset := by
  unfold allocate
  rw [if_neg (Nat.pos_iff_ne_zero.1 hsize)]
  simp only [hfree]

/-- A range that was just allocated can be released. -/
theorem release_allocated (hs : Stands (s, h)) (hsize : 0 < size)
    (ha : s.allocate h size = .ok (s₁, h₁) offset) : ∃ s₂, s₁.release offset size = .ok s₂ := by
  rcases allocate_cases hs hsize with ⟨f, hfailed⟩ | ⟨b, place, hok, hhands⟩
  · rw [ha] at hfailed
    cases hfailed
  · rw [ha] at hok
    cases hok
    have hused : Finset.Ico offset (offset + size) ⊆ s₁.used := by
      rw [hhands.obtains.used]
      exact Finset.subset_union_right
    obtain ⟨s₂, hs₂, -⟩ := release_ok_of_used hhands.stands hsize hused
    exact ⟨s₂, hs₂⟩

/-- A range from the pool leaves no trace in it once it is released. -/
theorem reuse_from_pool (hs : s.Sound) (hsize : 0 < size) {free : Pool}
    (hfree : s.free.allocate size = some (offset, free))
    (hr : ({ s with free := free } : Space).release offset size = .ok s₂) :
    s₂.free.segments = s.free.segments ∧
      ∃ s₃, s₂.allocate h size = .ok (s₃, h) offset ∧ s₃.logicalSize = s.logicalSize ∧
        s₃.physicalSize = s.physicalSize := by
  obtain ⟨back, hback, rfl⟩ := release_eq hr
  obtain ⟨hsegments, again, hagain⟩ := Pool.reuse_of_taken hs.pool hfree hback
  exact ⟨hsegments, _, allocate_of_pool h hsize hagain, rfl, rfl⟩

/-- A range that the pool did not have is in it once it is released, joined with what it touches. -/
theorem reuse_of_grown (hs : s.Sound) (hsize : 0 < size) (hfree : s.free.allocate size = none)
    (hkept : s₁.free = s.free) (hr : s₁.release offset size = .ok s₂) :
    ∃ t ∈ s₂.free.segments, t.contains offset = true ∧
      ∃ s₃, s₂.allocate h size = .ok (s₃, h) t.position ∧ s₃.logicalSize = s₁.logicalSize ∧
        s₃.physicalSize = s₁.physicalSize := by
  obtain ⟨back, hback, rfl⟩ := release_eq hr
  rw [hkept] at hback
  obtain ⟨t, ht, hcontains, again, hagain⟩ := Pool.reuse_of_missed hs.pool hsize hfree hback
  exact ⟨t, ht, hcontains, _, allocate_of_pool h hsize hagain, rfl, rfl⟩

end Space

namespace Session

/-- An allocation undone and repeated, at any point of a session, for the space of any tenant. What
was allocated can be released, and then the same size is allocated again without growth: the space
covers as many bytes as before, in as many bytes of blocks. If the pool had the first range, the
release leaves the segments that there were, and the second range is the first; if the space grew
by it, the second is the head of the segment that the first is now part of. -/
theorem immediate_reuse {settings : Settings} {registry : Registry}
    (hregistry : Registry.ofSettings settings = .ok registry) (disk : Disk) (heap : Nat)
    (actions : List Action) {name : String} {l : Lodging}
    (hl : ((ofHost ⟨registry, disk, heap⟩).run actions).lodging? name = some l)
    {size : Nat} (hsize : 0 < size) :
    let s := l.tenant.inner
    let h := ((ofHost ⟨registry, disk, heap⟩).run actions).hostOf l
    ∀ s₁ h₁ offset, s.allocate h size = .ok (s₁, h₁) offset →
      ∃ s₂ s₃ again, s₁.release offset size = .ok s₂ ∧
        s₂.allocate h₁ size = .ok (s₃, h₁) again ∧
        s₂.logicalSize = s₁.logicalSize ∧ s₃.logicalSize = s₁.logicalSize ∧
        s₂.physicalSize = s₁.physicalSize ∧ s₃.physicalSize = s₁.physicalSize ∧
        ((s.free.allocate size).isSome → s₁.logicalSize = s.logicalSize ∧
          s₂.free.segments = s.free.segments ∧ again = offset) ∧
        (s.free.allocate size = none → s₁.logicalSize = s.logicalSize + size ∧
          offset = s.logicalSize ∧
          ∃ t ∈ s₂.free.segments, t.contains offset = true ∧ again = t.position) := by
  intro s h s₁ h₁ offset ha
  have hstands : Space.Stands (s, h) := stands_run hregistry disk heap actions hl
  have hs : s.Sound := hstands.sound
  obtain ⟨s₂, hr⟩ := Space.release_allocated hstands hsize ha
  have hsame : s₂.logicalSize = s₁.logicalSize ∧ s₂.physicalSize = s₁.physicalSize := by
    obtain ⟨back, -, rfl⟩ := Space.release_eq hr
    exact ⟨rfl, rfl⟩
  rcases Space.allocate_source hsize ha with ⟨free, hfree, rfl, rfl⟩ | ⟨hfree, hextend, rfl⟩
  · obtain ⟨hsegments, s₃, hagain, hlogical, hphysical⟩ := Space.reuse_from_pool hs hsize hfree hr
    refine ⟨s₂, s₃, offset, hr, hagain, hsame.1, hlogical, hsame.2, hphysical,
      fun _ => ⟨rfl, hsegments, rfl⟩, fun hnone => ?_⟩
    rw [hfree] at hnone
    cases hnone
  · obtain ⟨hkept, hlonger⟩ := Space.extend_ok hextend
    obtain ⟨t, ht, hcontains, s₃, hagain, hlogical, hphysical⟩ :=
      Space.reuse_of_grown hs hsize hfree hkept hr
    refine ⟨s₂, s₃, t.position, hr, hagain, hsame.1, hlogical, hsame.2, hphysical,
      fun hsome => ?_, fun _ => ⟨hlonger, rfl, t, ht, hcontains, rfl⟩⟩
    rw [hfree] at hsome
    cases hsome

/-- Two bytes come from the smaller of two free segments. Eight are more than either has; once they
are released they are part of the segment at the old end of the space. -/
theorem immediate_reuse_both :
    let actions : List Action := [.openSpace "a" true {}, .onSpace "a" (.extend 16),
      .onSpace "a" (.release 2 3), .onSpace "a" (.release 12 4)]
    let σ := (ofHost ⟨⟨Settings.standard, 0, [0], 0⟩, Disk.standard, 4096⟩).run actions
    ∃ l, σ.lodging? "a" = some l ∧
      (∃ s₁ h₁ s₂ s₃, l.tenant.inner.allocate (σ.hostOf l) 2 = .ok (s₁, h₁) 2 ∧
        s₁.release 2 2 = .ok s₂ ∧ s₂.allocate h₁ 2 = .ok (s₃, h₁) 2 ∧
        s₂.free.segments = [⟨2, 3⟩, ⟨12, 4⟩]) ∧
      ∃ s₁ h₁ s₂ s₃, l.tenant.inner.allocate (σ.hostOf l) 8 = .ok (s₁, h₁) 16 ∧
        s₁.release 16 8 = .ok s₂ ∧ s₂.allocate h₁ 8 = .ok (s₃, h₁) 12 ∧
        s₃.logicalSize = s₁.logicalSize := by
  intro actions σ
  have hregistry : Registry.ofSettings Settings.standard = .ok ⟨Settings.standard, 0, [0], 0⟩ := rfl
  obtain ⟨l, hl, hsegments, hpool, hmissed, ⟨t₁, g₁, htaken⟩, ⟨s₁, h₁, r, hgrown, hr, hjoined⟩⟩ :
      ∃ l, σ.lodging? "a" = some l ∧ l.tenant.inner.free.segments = [⟨2, 3⟩, ⟨12, 4⟩] ∧
        (l.tenant.inner.free.allocate 2).isSome ∧ l.tenant.inner.free.allocate 8 = none ∧
        (∃ s₁ h₁, l.tenant.inner.allocate (σ.hostOf l) 2 = .ok (s₁, h₁) 2) ∧
        ∃ s₁ h₁ s₂, l.tenant.inner.allocate (σ.hostOf l) 8 = .ok (s₁, h₁) 16 ∧
          s₁.release 16 8 = .ok s₂ ∧ s₂.free.segments = [⟨2, 3⟩, ⟨12, 12⟩] :=
    ⟨_, rfl, by decide +kernel, by decide +kernel, by decide +kernel, ⟨_, _, rfl⟩,
      ⟨_, _, _, rfl, rfl, by decide +kernel⟩⟩
  refine ⟨l, hl, ?_, ?_⟩
  · obtain ⟨t₂, t₃, again, ht, hagain, -, -, -, -, hsome, -⟩ :=
      immediate_reuse hregistry Disk.standard 4096 actions hl (by decide : 0 < 2) t₁ g₁ 2 htaken
    obtain ⟨-, hback, rfl⟩ := hsome hpool
    exact ⟨t₁, g₁, t₂, t₃, htaken, ht, hagain, hback.trans hsegments⟩
  · obtain ⟨s₂, s₃, again, hr', hagain, -, hlogical, -, -, -, hnone⟩ :=
      immediate_reuse hregistry Disk.standard 4096 actions hl (by decide : 0 < 8) s₁ h₁ 16 hgrown
    obtain ⟨-, -, t, ht, hcontains, rfl⟩ := hnone hmissed
    rw [hr, Except.ok.injEq] at hr'
    subst hr'
    rw [hjoined] at ht
    have hposition : t.position = 12 := by
      rcases List.mem_cons.1 ht with rfl | ht
      · cases hcontains
      · rw [List.mem_singleton.1 ht]
    rw [hposition] at hagain
    exact ⟨s₁, h₁, r, s₃, hgrown, hr, hagain, hlogical⟩

end Session

end SpillStorage
