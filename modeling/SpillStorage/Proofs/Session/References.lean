import SpillStorage.Proofs.Session.Staging
import SpillStorage.Proofs.StagingCache.References

/-!
References to the blobs of a staging cache in a session.

What is proved:
  1. `refs_harmless`: in every run that leaves a cache where it is, with whatever references, the
     headers of its blobs stay right, and a request that goes by a reference changes no slot that
     the reference does not name.
  2. `released_ref_refused`: in a run in range a reference that was released is refused for as long
     as its slot is not handed out again, and is as good as the new one afterwards.
     `released_ref_revived` shows one that reads what was put after it was released.
-/

namespace SpillStorage.Session

open StagingCache (Framed InOrder Item Talks goodAfterAll headerLength staleRef)

/-! ## Any reference -/

/-- References that a caller makes up do no harm. Take a space in a session after any actions, let
a cache take it over, and then any actions that leave the cache where it is, with references of
whatever offset, capacity and length. Then a reference reads a payload or it is refused, so no blob
is ever found to be damaged: the header of every live blob can be read, and the length that it
gives fits into the slot behind it. And a request that goes by a reference, met or refused, keeps
the slot of every item, a message or a blob, and every byte of it, but for the slot whose offset and
capacity the reference gives. -/
theorem refs_harmless {settings : Settings} {registry : Registry}
    (hregistry : Registry.ofSettings settings = .ok registry) (disk : Disk) (heap : Nat)
    (before : List Action) (name : String) (alignment : Nat)
    (hstage : (((ofHost ⟨registry, disk, heap⟩).run before).stage name alignment).map
      Outcome.answer = some (.ok ()))
    {actions : List Action} (hkeeps : ∀ action ∈ actions, action.KeepsCache name) :
    let staged := ((ofHost ⟨registry, disk, heap⟩).run before).perform (.stage name alignment)
    ∃ c own, (staged.run actions).lodging? name = some ⟨.cache c, own⟩ ∧
      let h := (staged.run actions).hostOf ⟨.cache c, own⟩
      (∀ r, (c.holdsBlob r = true ∧ ∃ payload, c.blob h r = .ok payload) ∨
        c.holdsBlob r = false ∧ c.blob h r = .error (staleRef r)) ∧
      (∀ offset size, c.blobs.get? offset = some size →
        ∃ header, (c.space.read h offset headerLength).complete = .ok header ∧
          headerLength + LittleEndian.decode header ≤ size) ∧
      ∀ request r, StagingCache.Request.ref? request = some r →
        let next := c.serve h request
        ∀ item size, c.size? item = some size →
          ¬ (item = .blob r.offset ∧ size = r.capacity) →
          next.1.size? item = some size ∧ ∃ bytes, bytes.length = size ∧
            (c.space.read h item.offset size).complete = .ok bytes ∧
            (next.1.space.read next.2 item.offset size).complete = .ok bytes := by
  intro staged
  have hσ := ((sound_ofHost hregistry disk heap).run before).1
  obtain ⟨s, h₀, start, base, hadopt, -, hstart, c, own, hl, htalks⟩ :=
    staged_run hσ hstage hkeeps
  have horder := htalks.inOrder hstart
  have hframed : Framed (c, _) := htalks.framed hstart (.adopt hadopt)
  refine ⟨c, own, hl, hframed.blob_cases horder, ?_, ?_⟩
  · intro offset size hlive
    exact hframed.header horder hlive
  · intro request r href next item size hlive hother
    have hsteps := StagingCache.steps_serve horder request
    have hspared := hsteps.spared_of_ref horder href hlive hother
    exact hspared.read_eq horder (hsteps.inOrder horder) hlive

/-- A blob and a message behind it. Through a reference that is too short a byte is written over in
the slot of the blob; through one that is too long the blob moves, and takes bytes of the message
along. The message keeps its bytes, and the blob can be read. -/
theorem refs_harmless_forged :
    let start := ofHost
      ⟨⟨Settings.exact [⟨Path.ofString "/tmp", none⟩] 40, 0, [0], 0⟩, Disk.standard, 64⟩
    let actions : List Action := [.onCache "a" (.putBlob [1, 2]),
      .onCache "a" (.putMessage [3, 4, 5, 6, 7, 8, 9, 10]),
      .onCache "a" (.appendBlob ⟨0, 16, 0⟩ [11])]
    let talked := ((start.run [.openSpace "a" true {}]).perform (.stage "a" 8)).run actions
    ∃ c own, talked.lodging? "a" = some ⟨.cache c, own⟩ ∧
      let h := talked.hostOf ⟨.cache c, own⟩
      let next := c.serve h (.appendBlob ⟨0, 16, 12⟩ [12])
      (∃ payload, c.blob h ⟨0, 16, 7⟩ = .ok payload) ∧
      c.reply h (.appendBlob ⟨0, 16, 12⟩ [12]) = some (.ref ⟨24, 32, 13⟩) ∧
      next.1.size? (.message 16) = some 8 ∧ ∃ bytes, bytes.length = 8 ∧
        (c.space.read h 16 8).complete = .ok bytes ∧
        (next.1.space.read next.2 16 8).complete = .ok bytes := by
  intro start actions talked
  have hregistry : Registry.ofSettings (Settings.exact [⟨Path.ofString "/tmp", none⟩] 40) =
    .ok ⟨Settings.exact [⟨Path.ofString "/tmp", none⟩] 40, 0, [0], 0⟩ := rfl
  have hkeeps : ∀ action ∈ actions, action.KeepsCache "a" := by
    simp [actions, Action.KeepsCache]
  obtain ⟨c, own, hl, hreads, -, hspares⟩ := refs_harmless hregistry Disk.standard 64
    [.openSpace "a" true {}] "a" 8 rfl hkeeps
  have hanswers : (talked.cache? "a").map (fun a => (a.1.holdsBlob ⟨0, 16, 7⟩,
      a.1.size? (.message 16), a.1.reply a.2 (.appendBlob ⟨0, 16, 12⟩ [12]))) =
      some (true, some 8, some (.ref ⟨24, 32, 13⟩)) := by decide +kernel
  have hlodging : talked.lodging? "a" = some ⟨.cache c, own⟩ := hl
  simp only [cache?, hlodging, Option.map_some] at hanswers
  obtain ⟨hholds, hrest⟩ := Prod.mk.inj (Option.some.inj hanswers)
  obtain ⟨hmessage, hreply⟩ := Prod.mk.inj hrest
  refine ⟨c, own, hl, ?_, hreply, ?_⟩
  · rcases hreads ⟨0, 16, 7⟩ with ⟨-, hread⟩ | ⟨hstale, -⟩
    · exact hread
    · rw [hholds] at hstale
      cases hstale
  · exact hspares (.appendBlob ⟨0, 16, 12⟩ [12]) ⟨0, 16, 12⟩ rfl (.message 16) 8 hmessage
      fun hnamed => by cases hnamed.1

/-! ## References that were released -/

/-- What becomes of a reference that was released. Let a cache take over a space in a session, and
let it release a blob by a reference after any actions that leave it where it is; then let there be
any further such actions. Let the run be in range: no space gets to `2 ^ 63` bytes, and the lengths
in the references to append through leave room for the data and a header below `2 ^ 64`. Then no sum
or product in a cache leaves the range. Tell from the requests since the release and their answers
whether the slot that the reference names was handed out again, and not returned. If not, the
reference is refused in a read, in a release and in an append of whatever data, and nothing changes.
Otherwise it is good, though what it names now is another blob, whose reference was answered
since. -/
theorem released_ref_refused {settings : Settings} {registry : Registry}
    (hregistry : Registry.ofSettings settings = .ok registry) (disk : Disk) (heap : Nat)
    (before : List Action) (name : String) (alignment : Nat)
    (hstage : (((ofHost ⟨registry, disk, heap⟩).run before).stage name alignment).map
      Outcome.answer = some (.ok ()))
    {earlier later : List Action} (hearlier : ∀ action ∈ earlier, action.KeepsCache name)
    (hlater : ∀ action ∈ later, action.KeepsCache name) (r : BlobRef)
    (hreleased : ((((ofHost ⟨registry, disk, heap⟩).run before).perform
      (.stage name alignment)).run earlier).asked name (.onCache name (.releaseBlob r)) =
        [(.releaseBlob r, some .done)])
    (hrange : (ofHost ⟨registry, disk, heap⟩).InRange (before ++ .stage name alignment :: earlier ++
      .onCache name (.releaseBlob r) :: later)) :
    let start := ofHost ⟨registry, disk, heap⟩
    let steps :=
      before ++ .stage name alignment :: earlier ++ .onCache name (.releaseBlob r) :: later
    let staged := (start.run before).perform (.stage name alignment)
    let released := (staged.run earlier).perform (.onCache name (.releaseBlob r))
    let good := goodAfterAll r false (transcript name released later)
    start.runChecked steps = some (start.run steps) ∧
    ∃ c own, (released.run later).lodging? name = some ⟨.cache c, own⟩ ∧
      let h := (released.run later).hostOf ⟨.cache c, own⟩
      c.blobChecked h r = some (c.blob h r) ∧
      (good = false → c.blob h r = .error (staleRef r) ∧
        c.releaseBlob h r = .fail (c, h) (staleRef r) ∧
        ∀ data, c.appendBlob h r data = .fail (c, h) (staleRef r)) ∧
      (good = true → (∃ payload, c.blob h r = .ok payload) ∧
        c.reply h (.releaseBlob r) = some .done ∧
        ∃ request r', (request, some (.ref r')) ∈ transcript name released later ∧
          r'.offset = r.offset ∧ r'.capacity = r.capacity) := by
  intro start steps staged released good
  have hσ := ((sound_ofHost hregistry disk heap).run before).1
  have hearlier' := (((hσ.perform (.stage name alignment)).1.run earlier).1)
  obtain ⟨s, h₀, first, base, hadopt, -, hfirst, htalking⟩ := staged_run hσ hstage hearlier
  have hstaged : Talking first name _ released := htalking.onCache (.releaseBlob r)
  obtain ⟨c₁, own₁, hl₁, htalks₁⟩ := hstaged
  have horder₁ := htalks₁.inOrder hfirst
  have hframed₁ : Framed (c₁, _) := htalks₁.framed hfirst (.adopt hadopt)
  have hgone : c₁.holdsBlob r = false := by
    have hholds := htalks₁.holdsBlob_eq hfirst r
    rw [hreleased, StagingCache.goodAfterAll_append] at hholds
    rw [hholds, goodAfterAll, List.foldl_cons, List.foldl_nil]
    simp [StagingCache.goodAfter]
  -- from here on it is a conversation of its own
  have hagain : Talking (c₁, _) name [] released := ⟨c₁, own₁, hl₁, .start⟩
  obtain ⟨c, own, hl, htalks⟩ :=
    hagain.run (hearlier'.perform (.onCache name (.releaseBlob r))).1 hlater
  rw [List.nil_append] at htalks
  have horder := htalks.inOrder horder₁
  have hframed : Framed (c, _) := htalks.framed horder₁ hframed₁
  have hgood : c.holdsBlob r = good := by
    have hholds := htalks.holdsBlob_eq horder₁ r
    rw [hgone] at hholds
    exact hholds
  refine ⟨runChecked_eq hregistry disk heap hrange, c, own, hl,
    StagingCache.blobChecked_eq horder hframed r, ?_, ?_⟩
  · intro hdead
    exact StagingCache.stale_refused (hgood.trans hdead)
  · intro halive
    have hlive := hgood.trans halive
    obtain ⟨payload, hread, -⟩ := hframed.blob_ok horder hlive
    refine ⟨⟨payload, hread⟩, ?_, StagingCache.handedOut_of_goodAfterAll halive⟩
    obtain ⟨s', hrelease, -⟩ :=
      StagingCache.releaseBlob_ok horder (StagingCache.holdsBlob_iff.1 hlive)
    rw [StagingCache.reply, hrelease]
    rfl

/-- A message and a longer blob are put where the released blob was and behind it. The reference
stays refused. -/
theorem released_ref_refused_overlaid :
    let start := ofHost
      ⟨⟨Settings.exact [⟨Path.ofString "/tmp", none⟩] 40, 0, [0], 0⟩, Disk.standard, 64⟩
    let r : BlobRef := ⟨0, 16, 4⟩
    let earlier : List Action := [.onCache "a" (.putBlob [1, 2, 3, 4])]
    let later : List Action := [.onCache "a" (.putMessage [5]), .openSpace "b" true {},
      .onCache "a" (.putBlob [6]), .onCache "a" (.appendBlob ⟨16, 16, 1⟩ [7, 8, 9])]
    let staged := (start.run [.openSpace "a" true {}]).perform (.stage "a" 8)
    let talked := ((staged.run earlier).perform (.onCache "a" (.releaseBlob r))).run later
    ∃ c own, talked.lodging? "a" = some ⟨.cache c, own⟩ ∧
      let h := talked.hostOf ⟨.cache c, own⟩
      c.blob h r = .error (staleRef r) ∧ c.releaseBlob h r = .fail (c, h) (staleRef r) ∧
        ∀ data, c.appendBlob h r data = .fail (c, h) (staleRef r) := by
  intro start r earlier later staged talked
  have hregistry : Registry.ofSettings (Settings.exact [⟨Path.ofString "/tmp", none⟩] 40) =
    .ok ⟨Settings.exact [⟨Path.ofString "/tmp", none⟩] 40, 0, [0], 0⟩ := rfl
  have hearlier : ∀ action ∈ earlier, action.KeepsCache "a" := by
    simp [earlier, Action.KeepsCache]
  have hlater : ∀ action ∈ later, action.KeepsCache "a" := by
    simp [later, Action.KeepsCache, Action.name?]
  obtain ⟨-, c, own, hl, -, hrefused, -⟩ := released_ref_refused hregistry Disk.standard 64
    [.openSpace "a" true {}] "a" 8 rfl hearlier hlater r (by decide +kernel) (by decide +kernel)
  exact ⟨c, own, hl, hrefused (by decide +kernel)⟩

/-- A blob of the same size takes the slot that was released: through the old reference it is read,
and it can be released too. -/
theorem released_ref_revived :
    let start := ofHost
      ⟨⟨Settings.exact [⟨Path.ofString "/tmp", none⟩] 4096, 0, [0], 0⟩, Disk.standard, 64⟩
    let r : BlobRef := ⟨0, 16, 4⟩
    let staged := (start.run [.openSpace "a" true {}]).perform (.stage "a" 8)
    let stored := staged.run [.onCache "a" (.putBlob [1, 2, 3, 4])]
    let talked := (stored.perform (.onCache "a" (.releaseBlob r))).run
      [.onCache "a" (.putBlob [5, 6, 7, 8])]
    stored.asked "a" (.onCache "a" (.releaseBlob r)) = [(.releaseBlob r, some .done)] ∧
      ∃ c own, talked.lodging? "a" = some ⟨.cache c, own⟩ ∧
        let h := talked.hostOf ⟨.cache c, own⟩
        c.blob h r = .ok [5, 6, 7, 8] ∧ c.reply h (.releaseBlob r) = some .done := by
  refine ⟨by decide +kernel, _, _, rfl, ?_, ?_⟩
  · rfl
  · rfl

end SpillStorage.Session
