import SpillStorage.Proofs.Session.Checked
import SpillStorage.Proofs.StagingCache.Alignment
import SpillStorage.Proofs.StagingCache.Contents

/-!
Staging caches in a session, from the moment that they take over a space.

What is proved:
  1. `Talking.run`: in every run that leaves a cache where it is, the cache takes part in a
     conversation, whatever the other tenants do meanwhile.
  2. `holds_what_was_staged`: every message and every blob is read as it was stored, and what is
     done to one item, or refused, is not seen in another.
  3. `offsets_aligned`: the offsets that are answered are aligned, if the free segments of the space
     were. `misaligned_after_release` shows that the size of the space does not suffice.
  4. `appends_exact`: in a run in range an accepted append keeps what is stored exactly if the
     reference knows its length. `append_through_copy` shows an older copy that does not.
-/

namespace SpillStorage.Session

open StagingCache (Contents Reply Talks InOrder Holds Aligned Framed)

/-! ## What a cache is asked -/

/-- The cache with a name, and the host as it sees it. -/
def cache? (σ : Session) (name : String) : Option (StagingCache × Host) :=
  match σ.lodging? name with
  | some ⟨.cache c, own⟩ => some (c, σ.hostOf ⟨.cache c, own⟩)
  | _ => none

/-- What the cache with a name is asked in an action, and what it answers. -/
def asked (σ : Session) (name : String) : Action → List (StagingCache.Request × Option Reply)
  | .onCache other request =>
    match σ.lodging? name with
    | some ⟨.cache c, own⟩ =>
      if other = name then [(request, c.reply (σ.hostOf ⟨.cache c, own⟩) request)] else []
    | _ => []
  | _ => []

/-- What the cache with a name is asked in a run, and what it answers. -/
def transcript (name : String) (σ : Session) :
    List Action → List (StagingCache.Request × Option Reply)
  | [] => []
  | action :: rest => σ.asked name action ++ transcript name (σ.perform action) rest

/-- The action leaves the cache with a name where it is: it asks the cache for something, or it is
not about it. -/
def Action.KeepsCache (name : String) : Action → Prop
  | .onCache _ _ => True
  | action => action.name? ≠ some name

/-- The cache with a name got where it is by a conversation. -/
def Talking (start : StagingCache × Host) (name : String)
    (log : List (StagingCache.Request × Option Reply)) (σ : Session) : Prop :=
  ∃ c own, σ.lodging? name = some ⟨.cache c, own⟩ ∧ Talks start log (c, σ.hostOf ⟨.cache c, own⟩)

variable {others : Nat → Prop} {σ σ' : Session} {name : String} {start : StagingCache × Host}
  {log : List (StagingCache.Request × Option Reply)} {alignment : Nat}

namespace Talking

/-- Whoever spares a cache lets it wait. -/
theorem spared {asked : Option String} (h : Talking start name log σ) (hσ' : Sound others σ')
    (hspares : Spares asked σ σ') (hne : some name ≠ asked) : Talking start name log σ' := by
  obtain ⟨c, own, hl, htalks⟩ := h
  have hl' := (hspares.lodging name hne).trans hl
  exact ⟨c, own, hl', htalks.wait (hσ'.stands hl') (hspares.content_hostOf hne hl)⟩

theorem onCache (h : Talking start name log σ) (request : StagingCache.Request) :
    Talking start name (log ++ σ.asked name (.onCache name request))
      (σ.perform (.onCache name request)) := by
  obtain ⟨c, own, hl, htalks⟩ := h
  have hperform : σ.perform (.onCache name request) =
      σ.settle name ⟨.cache c, own⟩ (.cache (c.serve (σ.hostOf ⟨.cache c, own⟩) request).1)
        (c.serve (σ.hostOf ⟨.cache c, own⟩) request).2 := by
    simp only [perform, Session.onCache, hl]
    rfl
  rw [hperform]
  simp only [asked, hl, if_true]
  refine ⟨_, _, by rw [lodging?_settle, if_pos rfl], ?_⟩
  rw [hostOf_settle]
  exact htalks.ask request

theorem perform (h : Talking start name log σ) (hσ : Sound others σ) {action : Action}
    (hkeeps : action.KeepsCache name) :
    Talking start name (log ++ σ.asked name action) (σ.perform action) := by
  obtain ⟨hσ', hspares⟩ := hσ.perform action
  -- an action that is not about the cache asks it nothing
  have hspared : ∀ asked, Spares asked σ (σ.perform action) → some name ≠ asked →
      Talking start name (log ++ []) (σ.perform action) := by
    intro asked hspares hne
    rw [List.append_nil]
    exact h.spared hσ' hspares hne
  obtain ⟨c, own, hl, -⟩ := id h
  cases action with
  | onCache other request =>
    by_cases hother : other = name
    · subst hother
      exact h.onCache request
    · simp only [asked, hl, if_neg hother]
      exact hspared _ hspares fun heq => hother (Option.some.inj heq).symm
  | _ => exact hspared _ hspares (Ne.symm hkeeps)

theorem run (h : Talking start name log σ) (hσ : Sound others σ) {actions : List Action}
    (hkeeps : ∀ action ∈ actions, action.KeepsCache name) :
    Talking start name (log ++ transcript name σ actions) (σ.run actions) := by
  induction actions generalizing σ log with
  | nil =>
    rw [transcript, List.append_nil]
    exact h
  | cons action rest ih =>
    rw [transcript, ← List.append_assoc]
    exact ih (h.perform hσ (hkeeps action List.mem_cons_self)) (hσ.perform action).1
      fun a ha => hkeeps a (List.mem_cons_of_mem _ ha)

end Talking

/-! ## Taking over a space -/

/-- What it takes for a cache to take over the space with a name. -/
theorem stage_ok (hstage : (σ.stage name alignment).map Outcome.answer = some (.ok ())) :
    ∃ l h c, σ.lodging? name = some l ∧
      StagingCache.adopt l.tenant.inner (σ.hostOf l) alignment = .ok h c ∧
      σ.perform (.stage name alignment) = σ.settle name l (.cache c) h := by
  obtain ⟨l, tenant, h, hl, hadopt, hsettle⟩ := convert_ok hstage
  obtain ⟨c, hcache, rfl⟩ := Outcome.of_map_ok hadopt
  exact ⟨l, h, c, hl, hcache, hsettle⟩

/-- A cache in a session: it took over a space that stood, and has been in a conversation since. -/
theorem staged_run_used (hσ : Sound others σ)
    (hstage : (σ.stage name alignment).map Outcome.answer = some (.ok ())) {actions : List Action}
    (hkeeps : ∀ action ∈ actions, action.KeepsCache name) :
    ∃ l start, σ.lodging? name = some l ∧
      StagingCache.adopt l.tenant.inner (σ.hostOf l) alignment = .ok start.2 start.1 ∧
      (∃ own, (σ.perform (.stage name alignment)).lodging? name = some ⟨.cache start.1, own⟩) ∧
      InOrder l.tenant.inner.used start ∧ Talking start name
        (transcript name (σ.perform (.stage name alignment)) actions)
        ((σ.perform (.stage name alignment)).run actions) := by
  obtain ⟨l, h, c, hl, hadopt, hsettle⟩ := stage_ok hstage
  have hstaged := (hσ.perform (.stage name alignment)).1
  rw [hsettle] at hstaged ⊢
  have hcache : (σ.settle name l (.cache c) h).lodging? name =
      some ⟨.cache c, l.own.map fun _ => h.registry⟩ := by rw [lodging?_settle, if_pos rfl]
  have htalking : Talking (c, h) name [] (σ.settle name l (.cache c) h) := by
    refine ⟨c, _, hcache, ?_⟩
    rw [hostOf_settle]
    exact .start
  exact ⟨l, (c, h), hl, hadopt, ⟨_, hcache⟩, .adopt (hσ.stands hl) hadopt,
    htalking.run hstaged hkeeps⟩

/-- The same without a word on where the cache was before. -/
theorem staged_run (hσ : Sound others σ)
    (hstage : (σ.stage name alignment).map Outcome.answer = some (.ok ())) {actions : List Action}
    (hkeeps : ∀ action ∈ actions, action.KeepsCache name) :
    ∃ s h start base, StagingCache.adopt s h alignment = .ok start.2 start.1 ∧
      (∃ own, (σ.perform (.stage name alignment)).lodging? name = some ⟨.cache start.1, own⟩) ∧
      InOrder base start ∧ Talking start name
        (transcript name (σ.perform (.stage name alignment)) actions)
        ((σ.perform (.stage name alignment)).run actions) := by
  obtain ⟨l, start, -, hadopt, hcache, hstart, htalking⟩ := staged_run_used hσ hstage hkeeps
  exact ⟨_, _, start, _, hadopt, hcache, hstart, htalking⟩

/-! ## Items -/

/-- A staging cache holds what was staged. Take a space in a session after any actions, let a cache
take it over, and then any actions that leave the cache where it is, other tenants' and refused
ones among them, in which appends go by the references that were answered last. Tell from the
requests and their answers what the cache should hold. Then its live items are those, every message
is read as it was last stored, as far as one asks, and every blob as what was put with all appended
data behind it, in order. And whatever it is asked next: of the items that are not named in the
request, and of all items if it is refused, the same is read as before. -/
theorem holds_what_was_staged {settings : Settings} {registry : Registry}
    (hregistry : Registry.ofSettings settings = .ok registry) (disk : Disk) (heap : Nat)
    (before : List Action) (name : String) (alignment : Nat)
    (hstage : (((ofHost ⟨registry, disk, heap⟩).run before).stage name alignment).map
      Outcome.answer = some (.ok ()))
    {actions : List Action} (hkeeps : ∀ action ∈ actions, action.KeepsCache name)
    (hcurrent : Contents.empty.staysCurrent (transcript name
      (((ofHost ⟨registry, disk, heap⟩).run before).perform (.stage name alignment)) actions) =
        true) :
    let staged := ((ofHost ⟨registry, disk, heap⟩).run before).perform (.stage name alignment)
    let contents := Contents.empty.afterAll (transcript name staged actions)
    ∃ c own, (staged.run actions).lodging? name = some ⟨.cache c, own⟩ ∧
      let h := (staged.run actions).hostOf ⟨.cache c, own⟩
      (∀ offset, (c.messages.get? offset).isSome = (contents.messages.get? offset).isSome) ∧
      (∀ offset, (c.blobs.get? offset).isSome = (contents.blobs.get? offset).isSome) ∧
      (∀ offset message, contents.messages.get? offset = some message →
        ∀ length ≤ message.length, c.message h offset length = .ok (message.take length)) ∧
      (∀ offset r payload, contents.blobs.get? offset = some (r, payload) →
        r.offset = offset ∧ r.length = payload.length ∧ c.blob h r = .ok payload) ∧
      ∀ request,
        let next := c.serve h request
        (∀ offset, (c.messages.get? offset).isSome →
          c.reply h request = none ∨ ¬ request.Names (.message offset) →
          ∀ length, next.1.message next.2 offset length = c.message h offset length) ∧
        ∀ r : BlobRef, (c.blobs.get? r.offset).isSome →
          c.reply h request = none ∨ ¬ request.Names (.blob r.offset) →
          next.1.blob next.2 r = c.blob h r := by
  intro staged contents
  have hσ := ((sound_ofHost hregistry disk heap).run before).1
  obtain ⟨s, h₀, start, base, hadopt, -, hstart, c, own, hl, htalks⟩ :=
    staged_run hσ hstage hkeeps
  have horder := htalks.inOrder hstart
  have hholds : Holds contents _ := htalks.holds hstart (.adopt hadopt) hcurrent
  refine ⟨c, own, hl, ?_, ?_, ?_, ?_, ?_⟩
  · intro offset
    exact (hholds.displays.isSome_eq (.message offset)).symm
  · intro offset
    have hsome := hholds.displays.isSome_eq (.blob offset)
    rw [show contents.bytes? (.blob offset) = (contents.blobs.get? offset).map _ from rfl,
      Option.isSome_map] at hsome
    exact hsome.symm
  · intro offset message hget length hle
    exact hholds.message_eq horder hget hle
  · intro offset r payload hget
    obtain ⟨hoffset, -, hlength⟩ := hholds.refs offset r payload hget
    exact ⟨hoffset, hlength, hholds.blob_eq horder hget⟩
  · intro request
    have hsteps := StagingCache.steps_serve horder request
    have hnext := hsteps.inOrder horder
    refine ⟨?_, ?_⟩
    · intro offset hlive hquiet length
      obtain ⟨size, hsize⟩ := Option.isSome_iff_exists.1 hlive
      exact (hsteps.spared horder hquiet).message_eq horder hnext hsize length
    · intro r hlive hquiet
      obtain ⟨size, hsize⟩ := Option.isSome_iff_exists.1 hlive
      exact (hsteps.spared horder hquiet).blob_eq horder hnext hsize (hholds.header_le hsize)

/-- A cache over a space that has been in use and grows onto the disk, next to another space: a
message is written over in its slot, a blob is appended to in place and then moves, and a message
takes the room that it left. -/
theorem holds_what_was_staged_moved :
    let start := ofHost
      ⟨⟨Settings.exact [⟨Path.ofString "/tmp", none⟩] 40, 0, [0], 0⟩, Disk.standard, 64⟩
    let ready := start.run [.openSpace "a" true {}, .onSpace "a" (.extend 16),
      .onSpace "a" (.release 0 16)]
    let actions : List Action := [.onCache "a" (.putMessage [1, 2, 3]),
      .onCache "a" (.putBlob [4, 5]), .openSpace "b" true {}, .onSpace "b" (.extend 3),
      .onCache "a" (.storeInSlot 0 2 [9, 8]), .onCache "a" (.appendBlob ⟨16, 16, 2⟩ [6]),
      .onCache "a" (.appendBlob ⟨16, 16, 3⟩ [7, 7, 7, 7, 7, 7]), .onCache "a" (.putMessage [1]),
      .onCache "a" (.releaseMessage 5)]
    let staged := ready.perform (.stage "a" 8)
    ∃ c own, (staged.run actions).lodging? "a" = some ⟨.cache c, own⟩ ∧
      let h := (staged.run actions).hostOf ⟨.cache c, own⟩
      c.message h 0 3 = .ok [9, 8, 3] ∧ c.message h 8 1 = .ok [1] ∧
        c.blob h ⟨32, 32, 9⟩ = .ok [4, 5, 6, 7, 7, 7, 7, 7, 7] := by
  intro start ready actions staged
  have hregistry : Registry.ofSettings (Settings.exact [⟨Path.ofString "/tmp", none⟩] 40) =
    .ok ⟨Settings.exact [⟨Path.ofString "/tmp", none⟩] 40, 0, [0], 0⟩ := rfl
  have hkeeps : ∀ action ∈ actions, action.KeepsCache "a" := by
    simp [actions, Action.KeepsCache, Action.name?]
  obtain ⟨c, own, hl, -, -, hmessages, hblobs, -⟩ := holds_what_was_staged hregistry Disk.standard
    64 [.openSpace "a" true {}, .onSpace "a" (.extend 16), .onSpace "a" (.release 0 16)] "a" 8 rfl
    hkeeps (by decide +kernel)
  refine ⟨c, own, hl, ?_, ?_, ?_⟩
  · exact hmessages 0 [9, 8, 3] (by decide +kernel) 3 (by decide)
  · exact hmessages 8 [1] (by decide +kernel) 1 (by decide)
  · exact (hblobs 32 ⟨32, 32, 9⟩ _ (by decide +kernel)).2.2

/-! ## Offsets -/

/-- Offsets are aligned. Let a cache take over a space whose free segments start at multiples of the
alignment: then through all actions that leave the cache where it is, every offset that it answers,
of a message, of a new blob or of one that was appended to, is a multiple of the alignment. -/
theorem offsets_aligned {settings : Settings} {registry : Registry}
    (hregistry : Registry.ofSettings settings = .ok registry) (disk : Disk) (heap : Nat)
    (before : List Action) (name : String) (alignment : Nat)
    (hstage : (((ofHost ⟨registry, disk, heap⟩).run before).stage name alignment).map
      Outcome.answer = some (.ok ()))
    (hstarts : ∀ c own, (((ofHost ⟨registry, disk, heap⟩).run before).perform
        (.stage name alignment)).lodging? name = some ⟨.cache c, own⟩ →
      ∀ segment ∈ c.space.free.segments, alignment ∣ segment.position)
    {actions : List Action} (hkeeps : ∀ action ∈ actions, action.KeepsCache name) :
    let staged := ((ofHost ⟨registry, disk, heap⟩).run before).perform (.stage name alignment)
    ∀ request answer offset, (request, some answer) ∈ transcript name staged actions →
      answer.offset? = some offset → alignment ∣ offset := by
  intro staged request answer offset hmem hoffset
  have hσ := ((sound_ofHost hregistry disk heap).run before).1
  obtain ⟨s, h₀, start, base, hadopt, ⟨own, hcache⟩, hstart, c, own', hl, htalks⟩ :=
    staged_run hσ hstage hkeeps
  have hsegments := hstarts start.1 own hcache
  obtain ⟨-, -, -, hc⟩ := StagingCache.adopt_ok hadopt
  have haligned : Aligned start.1 := .adopt hadopt (by rwa [hc] at hsegments)
  have hanswers := (htalks.aligned hstart haligned).2 _ hmem offset hoffset
  rwa [hc] at hanswers

/-- A message goes to a free segment that starts at a multiple of eight. -/
theorem offsets_aligned_after_release :
    let start := ofHost
      ⟨⟨Settings.exact [⟨Path.ofString "/tmp", none⟩] 4096, 0, [0], 0⟩, Disk.standard, 64⟩
    let ready := start.run [.openSpace "a" true {}, .onSpace "a" (.extend 24),
      .onSpace "a" (.release 8 9)]
    let request := StagingCache.Request.putMessage [1, 2, 3, 4, 5, 6, 7, 8]
    (request, some (Reply.place 8)) ∈
      transcript "a" (ready.perform (.stage "a" 8)) [.onCache "a" request] ∧ 8 ∣ 8 := by
  intro start ready request
  have hregistry : Registry.ofSettings (Settings.exact [⟨Path.ofString "/tmp", none⟩] 4096) =
    .ok ⟨Settings.exact [⟨Path.ofString "/tmp", none⟩] 4096, 0, [0], 0⟩ := rfl
  have hsegments : ((ready.perform (.stage "a" 8)).lodging? "a").map
      (fun l => l.tenant.inner.free.segments) = some [⟨8, 9⟩] := by decide +kernel
  have hmem : (request, some (Reply.place 8)) ∈
      transcript "a" (ready.perform (.stage "a" 8)) [.onCache "a" request] := by decide +kernel
  refine ⟨hmem, ?_⟩
  apply offsets_aligned hregistry Disk.standard 64 [.openSpace "a" true {},
    .onSpace "a" (.extend 24), .onSpace "a" (.release 8 9)] "a" 8 rfl _ _ _ _ _ hmem rfl
  · intro c own hl segment hsegment
    have hlodging : (ready.perform (.stage "a" 8)).lodging? "a" = some ⟨.cache c, own⟩ := hl
    rw [hlodging] at hsegments
    have heq : c.space.free.segments = [⟨8, 9⟩] := Option.some.inj hsegments
    rw [heq] at hsegment
    rw [List.mem_singleton.1 hsegment]
  · simp [Action.KeepsCache]

/-- The size of a space can be aligned and its free segments not: then the message goes to an offset
that is not aligned either. -/
theorem misaligned_after_release :
    let start := ofHost
      ⟨⟨Settings.exact [⟨Path.ofString "/tmp", none⟩] 4096, 0, [0], 0⟩, Disk.standard, 64⟩
    let ready := start.run [.openSpace "a" true {}, .onSpace "a" (.extend 16),
      .onSpace "a" (.release 1 8)]
    let request := StagingCache.Request.putMessage [1, 2, 3, 4, 5, 6, 7, 8]
    (ready.stage "a" 8).map Outcome.answer = some (.ok ()) ∧
      (request, some (Reply.place 1)) ∈
        transcript "a" (ready.perform (.stage "a" 8)) [.onCache "a" request] ∧
      ¬ 8 ∣ 1 := by
  exact ⟨rfl, by decide +kernel, by decide⟩

/-! ## Appends -/

/-- What an accepted append leaves. Let a cache take over a space, and then any actions that leave
the cache where it is, with whatever references, and last an append. Let the run be in range: no
space gets to `2 ^ 63` bytes, and the lengths in the references to append through leave room for the
data and a header below `2 ^ 64`. Then no sum or product in a cache leaves the range. If the
reference reads a payload and the append is accepted, then what is read next is as many old bytes as
the reference says, and the data behind them; the old bytes agree with the payload as far as both
go. So the append keeps exactly what is stored if and only if the reference says how long that
is. -/
theorem appends_exact {settings : Settings} {registry : Registry}
    (hregistry : Registry.ofSettings settings = .ok registry) (disk : Disk) (heap : Nat)
    (before : List Action) (name : String) (alignment : Nat)
    (hstage : (((ofHost ⟨registry, disk, heap⟩).run before).stage name alignment).map
      Outcome.answer = some (.ok ()))
    {actions : List Action} (hkeeps : ∀ action ∈ actions, action.KeepsCache name) (r : BlobRef)
    (data : List UInt8)
    (hrange : (ofHost ⟨registry, disk, heap⟩).InRange
      (before ++ .stage name alignment :: actions ++ [.onCache name (.appendBlob r data)])) :
    let start := ofHost ⟨registry, disk, heap⟩
    let steps := before ++ .stage name alignment :: actions ++ [.onCache name (.appendBlob r data)]
    let staged := (start.run before).perform (.stage name alignment)
    start.runChecked steps = some (start.run steps) ∧
    ∃ c own, (staged.run actions).lodging? name = some ⟨.cache c, own⟩ ∧
      let h := (staged.run actions).hostOf ⟨.cache c, own⟩
      c.blobChecked h r = some (c.blob h r) ∧
      ∀ payload next r', c.blob h r = .ok payload → c.appendBlob h r data = .ok next r' →
        next.1.blobChecked next.2 r' = some (next.1.blob next.2 r') ∧
        (∃ old, old.length = r.length ∧ old.take payload.length = payload.take old.length ∧
          next.1.blob next.2 r' = .ok (old ++ data) ∧ r'.length = (old ++ data).length) ∧
        ((next.1.blob next.2 r' = .ok (payload ++ data) ∧
            r'.length = (payload ++ data).length) ↔
          r.length = payload.length) := by
  intro start steps staged
  have hσ := ((sound_ofHost hregistry disk heap).run before).1
  obtain ⟨s, h₀, first, base, hadopt, -, hfirst, c, own, hl, htalks⟩ := staged_run hσ hstage hkeeps
  have horder := htalks.inOrder hfirst
  have hframed : Framed (c, _) := htalks.framed hfirst (.adopt hadopt)
  refine ⟨runChecked_eq hregistry disk heap hrange, c, own, hl,
    StagingCache.blobChecked_eq horder hframed r, ?_⟩
  intro payload next r' hblob happend
  exact ⟨StagingCache.blobChecked_appended horder hframed happend,
    StagingCache.appendBlob_ok horder hblob happend,
    StagingCache.append_exact_iff horder hblob happend⟩

/-- A blob of five bytes gets three more in place, and then two through the reference that was
answered for that. -/
theorem appends_exact_twice :
    let start := ofHost
      ⟨⟨Settings.exact [⟨Path.ofString "/tmp", none⟩] 4096, 0, [0], 0⟩, Disk.standard, 64⟩
    let ready := start.run [.openSpace "a" true {}]
    let actions : List Action := [.onCache "a" (.putBlob [1, 2, 3, 4, 5]),
      .onCache "a" (.appendBlob ⟨0, 64, 5⟩ [6, 7, 8])]
    let talked := (ready.perform (.stage "a" 64)).run actions
    ∃ c own, talked.lodging? "a" = some ⟨.cache c, own⟩ ∧
      let h := talked.hostOf ⟨.cache c, own⟩
      c.blob h ⟨0, 64, 8⟩ = .ok [1, 2, 3, 4, 5, 6, 7, 8] ∧
      ∃ next r, c.appendBlob h ⟨0, 64, 8⟩ [9, 10] = .ok next r ∧
        next.1.blob next.2 r = .ok [1, 2, 3, 4, 5, 6, 7, 8, 9, 10] := by
  intro start ready actions talked
  have hregistry : Registry.ofSettings (Settings.exact [⟨Path.ofString "/tmp", none⟩] 4096) =
    .ok ⟨Settings.exact [⟨Path.ofString "/tmp", none⟩] 4096, 0, [0], 0⟩ := rfl
  have hkeeps : ∀ action ∈ actions, action.KeepsCache "a" := by
    simp [actions, Action.KeepsCache]
  obtain ⟨-, c, own, hl, -, hexact⟩ := appends_exact hregistry Disk.standard 64
    [.openSpace "a" true {}] "a" 64 rfl hkeeps ⟨0, 64, 8⟩ [9, 10] (by decide +kernel)
  have hread : (talked.cache? "a").bind (fun a => (a.1.blob a.2 ⟨0, 64, 8⟩).toOption) =
    some [1, 2, 3, 4, 5, 6, 7, 8] := by decide +kernel
  have hanswer : (talked.cache? "a").bind
      (fun a => (a.1.appendBlob a.2 ⟨0, 64, 8⟩ [9, 10]).answer.toOption) = some ⟨0, 64, 10⟩ := by
    decide +kernel
  have hlodging : talked.lodging? "a" = some ⟨.cache c, own⟩ := hl
  simp only [cache?, hlodging, Option.bind_some] at hread hanswer
  have hblob := eq_ok_of_toOption hread
  have happend : c.appendBlob _ _ _ = .ok _ _ :=
    congrArg (Outcome.mk (c.appendBlob _ _ _).state) (eq_ok_of_toOption hanswer)
  exact ⟨c, own, hl, hblob, _, _, happend, ((hexact _ _ _ hblob happend).2.2.2 rfl).1⟩

/-- A copy of the reference from before an append is still accepted: what the append stored is
lost. -/
theorem append_through_copy :
    let start := ofHost
      ⟨⟨Settings.exact [⟨Path.ofString "/tmp", none⟩] 4096, 0, [0], 0⟩, Disk.standard, 64⟩
    let ready := start.run [.openSpace "a" true {}]
    let copy : BlobRef := ⟨0, 64, 5⟩
    let talked := (ready.perform (.stage "a" 64)).run
      [.onCache "a" (.putBlob [1, 2, 3, 4, 5]), .onCache "a" (.appendBlob copy [6, 7, 8])]
    ∃ c own, talked.lodging? "a" = some ⟨.cache c, own⟩ ∧
      let h := talked.hostOf ⟨.cache c, own⟩
      c.blob h copy = .ok [1, 2, 3, 4, 5, 6, 7, 8] ∧
      ∃ next r, c.appendBlob h copy [9, 10] = .ok next r ∧
        next.1.blob next.2 r = .ok [1, 2, 3, 4, 5, 9, 10] := by
  refine ⟨_, _, rfl, rfl, _, _, rfl, ?_⟩
  rfl

/-- A blob that outgrows its slot moves to one that is twice as large. -/
example :
    let start := ofHost
      ⟨⟨Settings.exact [⟨Path.ofString "/tmp", none⟩] 4096, 0, [0], 0⟩, Disk.standard, 64⟩
    (transcript "a" (start.run [.openSpace "a" true {}, .stage "a" 8])
      [.onCache "a" (.putBlob [1, 2, 3, 4, 5, 6]), .onCache "a" (.appendBlob ⟨0, 16, 6⟩ [7, 8]),
        .onCache "a" (.appendBlob ⟨0, 16, 8⟩ [9])]).map Prod.snd =
      [some (.ref ⟨0, 16, 6⟩), some (.ref ⟨0, 16, 8⟩), some (.ref ⟨16, 32, 9⟩)] := by
  decide +kernel

end SpillStorage.Session
