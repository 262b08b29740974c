import SpillStorage.Proofs.Session.Staging
import SpillStorage.Proofs.StagingCache.Partition

/-!
The slots of a staging cache in a session, and the free segments of its space.

What is proved:
  1. `slots_partition`: in every run that leaves a cache where it is, its slots, the free segments
     and what was in use from the beginning share the space out, and no request, whatever its
     arguments and whether it is refused or not, loses a slot.
-/

namespace SpillStorage.Session

open StagingCache (Aligned Slots Untouched headerLength)

/-- Slots and free segments share the space out. Take a space in a session after any actions, let a
cache take it over, and then any actions that leave the cache where it is, other tenants' and
refused ones among them, with whatever references. Then slots are not empty, as long as the
alignment wants, and apart from each other and from the free segments; and what is in use are the
slots, and what was in use when the cache took the space over. A refused request leaves both lists
and all bytes in use as they were, and answers no reference. Whatever is live can be returned: a
message by its offset, a blob by a reference to its slot, the old slot of a blob once there is a new
one, and all slots at once; then what was in use from the beginning is all that is. And if the free
segments began and ended at multiples of the alignment, they still do, and slots start at one. -/
theorem slots_partition {settings : Settings} {registry : Registry}
    (hregistry : Registry.ofSettings settings = .ok registry) (disk : Disk) (heap : Nat)
    (before : List Action) (name : String) (alignment : Nat)
    (hstage : (((ofHost ⟨registry, disk, heap⟩).run before).stage name alignment).map
      Outcome.answer = some (.ok ()))
    {actions : List Action} (hkeeps : ∀ action ∈ actions, action.KeepsCache name) :
    let start := (ofHost ⟨registry, disk, heap⟩).run before
    let staged := start.perform (.stage name alignment)
    ∃ l₀, start.lodging? name = some l₀ ∧
      let s₀ := l₀.tenant.inner
      ∃ c own, (staged.run actions).lodging? name = some ⟨.cache c, own⟩ ∧
        let h := (staged.run actions).hostOf ⟨.cache c, own⟩
        c.alignment = alignment ∧ Slots s₀.used c ∧
        (∀ item size, c.size? item = some size → ∀ t ∈ c.space.free.segments,
          Disjoint t.bytes (item.bytes size)) ∧
        (∀ request, c.reply h request = none → Untouched (c, h) (c.serve h request)) ∧
        (∀ offset, c.reply h (.releaseMessage offset) = some .done ↔
          (c.messages.get? offset).isSome) ∧
        (∀ r, c.reply h (.releaseBlob r) = some .done ↔ c.holdsBlob r = true) ∧
        (∀ r data, (c.reply h (.appendBlob r data)).isSome ↔ c.holdsBlob r = true ∧
          (headerLength + (r.length + data.length) ≤ r.capacity ∨ c.CanMove h r data)) ∧
        (∃ next, c.clear h = .ok next () ∧
          next.1.messages.size = 0 ∧ next.1.blobs.size = 0 ∧ next.1.space.used = s₀.used ∧
          next.1.space.freeSpace =
            next.1.space.logicalSize - (s₀.logicalSize - s₀.freeSpace)) ∧
        ((∀ t ∈ s₀.free.segments, alignment ∣ t.position ∧ alignment ∣ t.finish) →
          (∀ t ∈ c.space.free.segments, alignment ∣ t.position ∧ alignment ∣ t.finish) ∧
          ∀ item size, c.size? item = some size → alignment ∣ item.offset) := by
  intro start staged
  have hσ := ((sound_ofHost hregistry disk heap).run before).1
  obtain ⟨l₀, first, hl₀, hadopt, -, hfirst, c, own, hl, htalks⟩ :=
    staged_run_used hσ hstage hkeeps
  obtain ⟨-, -, hlength, hnew⟩ := StagingCache.adopt_ok hadopt
  have horder := htalks.inOrder hfirst
  have hsound : l₀.tenant.inner.Sound := (hσ.stands hl₀).sound
  have halignment : c.alignment = alignment := by
    calc c.alignment = first.1.alignment := htalks.alignment_eq hfirst
      _ = alignment := by rw [hnew]
  refine ⟨l₀, hl₀, c, own, hl, halignment, horder.slots, ?_, ?_, ?_, ?_, ?_, ?_, ?_⟩
  · intro item size hlive t ht
    exact horder.slots.disjoint_free hlive ht
  · intro request hrefused
    exact horder.untouched hrefused
  · exact StagingCache.releaseMessage_iff horder
  · exact StagingCache.releaseBlob_iff horder
  · exact StagingCache.appendBlob_iff horder
  · obtain ⟨next, hclear, hmessages, hblobs, hused, hfree⟩ := horder.clear_empties
    refine ⟨next, hclear, ?_, ?_, hused, ?_⟩
    · rw [hmessages]
      rfl
    · rw [hblobs]
      rfl
    · rw [hfree, hsound.card_used]
  · intro hsegments
    have hal : Aligned c :=
      (htalks.aligned hfirst (.adopt hadopt fun t ht => (hsegments t ht).1)).1.1
    have hgrid : OnGrid c.alignment l₀.tenant.inner.used := by
      rw [halignment, hsound.onGrid_used_iff hlength, hsound.pool.onGrid_iff]
      exact hsegments
    rw [← halignment]
    exact ⟨horder.segments_aligned hal hgrid, fun item size hlive => hal.items hlive⟩

/-- Eight bytes are in use when a cache takes a space over. An append through a reference that makes
the blob longer than it is gets a slot, which it cannot fill. That is untouched by it, and all but
the eight bytes are free in the end. -/
theorem slots_partition_unfilled :
    let start := ofHost
      ⟨⟨Settings.exact [⟨Path.ofString "/tmp", none⟩] 40, 0, [0], 0⟩, Disk.standard, 64⟩
    let before : List Action := [.openSpace "a" true {}, .onSpace "a" (.extend 48),
      .onSpace "a" (.release 8 40)]
    let message : List UInt8 := List.replicate 33 7
    let actions : List Action := [.onCache "a" (.putMessage message), .openSpace "b" true {},
      .onCache "a" (.putBlob [4, 5]), .onCache "a" (.releaseMessage 8),
      .onCache "a" (.releaseMessage 8), .evict "b"]
    let talked := ((start.run before).perform (.stage "a" 8)).run actions
    ∃ c own, talked.lodging? "a" = some ⟨.cache c, own⟩ ∧
      let h := talked.hostOf ⟨.cache c, own⟩
      Untouched (c, h) (c.serve h (.appendBlob ⟨48, 16, 20⟩ [6])) ∧
      c.reply h (.releaseBlob ⟨48, 16, 2⟩) = some .done ∧
      (∀ t ∈ c.space.free.segments, 8 ∣ t.position ∧ 8 ∣ t.finish) ∧
      ∃ next, c.clear h = .ok next () ∧
        next.1.space.freeSpace = next.1.space.logicalSize - 8 := by
  intro start before message actions talked
  have hregistry : Registry.ofSettings (Settings.exact [⟨Path.ofString "/tmp", none⟩] 40) =
    .ok ⟨Settings.exact [⟨Path.ofString "/tmp", none⟩] 40, 0, [0], 0⟩ := rfl
  have hkeeps : ∀ action ∈ actions, action.KeepsCache "a" := by
    simp [actions, Action.KeepsCache, Action.name?]
  obtain ⟨l₀, hl₀, c, own, hl, -, -, -, hrefused, -, hblob, -, hclear, haligned⟩ :=
    slots_partition hregistry Disk.standard 64 before "a" 8 rfl hkeeps
  -- the space when the cache took it over
  have hstart : ((start.run before).lodging? "a").map (fun l => (l.tenant.inner.logicalSize,
      l.tenant.inner.freeSpace, l.tenant.inner.free.segments)) = some (48, 40, [⟨8, 40⟩]) := by
    decide +kernel
  have hlodging₀ : (start.run before).lodging? "a" = some l₀ := hl₀
  rw [hlodging₀] at hstart
  obtain ⟨hlogical, hrest⟩ := Prod.mk.inj (Option.some.inj hstart)
  obtain ⟨hfree, hsegments⟩ := Prod.mk.inj hrest
  -- what the cache answers in the end
  have hanswers : (talked.cache? "a").map (fun a => (a.1.holdsBlob ⟨48, 16, 2⟩,
      a.1.reply a.2 (.appendBlob ⟨48, 16, 20⟩ [6]))) = some (true, none) := by decide +kernel
  have hlodging : talked.lodging? "a" = some ⟨.cache c, own⟩ := hl
  simp only [cache?, hlodging, Option.map_some] at hanswers
  obtain ⟨hholds, hnone⟩ := Prod.mk.inj (Option.some.inj hanswers)
  refine ⟨c, own, hl, hrefused _ hnone, (hblob _).2 hholds, ?_, ?_⟩
  · refine (haligned ?_).1
    intro t ht
    rw [hsegments] at ht
    rw [List.mem_singleton.1 ht]
    decide
  · obtain ⟨next, hok, -, -, -, hspace⟩ := hclear
    rw [hlogical, hfree] at hspace
    exact ⟨next, hok, hspace⟩

end SpillStorage.Session
