import SpillStorage.Proofs.Session.Course

/-!
What a caller gets back of a space that it opened with a buffer.

What is proved:
  1. `initial_comes_back`: the buffer is the first block of the space all the while, and at the end
     it comes back as long as it was, with what was stored in it. All that the space held of the
     registry is given back, and its files are gone.
-/

namespace SpillStorage.Session

/-- The caller's buffer comes back. Open a space in a session after any actions, on the session's
registry or on one of its own. Then let anything happen, other tenants' and refused actions among
it, as long as no other space is opened under the name: the space is asked directly, or through
record logs and staging caches that take it over and give it back. When it is ended, the caller gets
what the chain holds of its buffer. If that was not empty, it is the first block of the space, and
it comes back as long as it was; every byte is the one that was stored last at its offset, and what
it was if none was stored there. If there was none, or an empty one, nothing comes back. The
accounts of the registry go down by just what the space held in memory and in each directory, and
its files are deleted. -/
theorem initial_comes_back {settings : Settings} {registry : Registry}
    (hregistry : Registry.ofSettings settings = .ok registry) (disk : Disk) (heap : Nat)
    (before : List Action) (name : String) (shared : Bool) (b : Blueprint)
    (hopen : (((ofHost ⟨registry, disk, heap⟩).run before).openSpace name shared b).answer =
      .ok ())
    {actions : List Action} (hsame : ∀ action ∈ actions, ¬ action.Opens name) {l : Lodging}
    (hl : ((((ofHost ⟨registry, disk, heap⟩).run before).openSpace name shared b).state.run
      actions).lodging? name = some l) :
    let opened := (((ofHost ⟨registry, disk, heap⟩).run before).openSpace name shared b).state
    let σ := opened.run actions
    let s := l.tenant.inner
    let h := σ.hostOf l
    ∃ returned h', σ.endWithInitial? name = some (returned, (σ.leaving l h').remove name) ∧
      (∀ buffer, b.options.initial = some buffer → 0 < buffer.size →
        ∃ data rest, returned = some data ∧ data.size = buffer.size ∧
          s.chain.blocks = ⟨0, buffer.size, .memory data true⟩ :: rest ∧
          ∀ i < buffer.size, data.byteAt i =
            (lastAt (storesIn name opened actions) i).getD (buffer.byteAt i)) ∧
      ((b.options.initial.map Buffer.size).getD 0 = 0 → returned = none) ∧
      h'.registry.cacheUsage + s.cacheUsage = h.registry.cacheUsage ∧
      (∀ index, h'.registry.directoryUsage index + bytesIn s.files.files index =
        h.registry.directoryUsage index) ∧
      ∀ f ∈ s.files.files, h'.disk.content? f.handle = none := by
  intro opened σ s h
  have hbefore := ((sound_ofHost hregistry disk heap).run before).1
  have hσ : Sound _ σ := (((hbefore.openSpace name shared b).1).run actions).1
  obtain ⟨s₀, h₀, r, r', hcreate, hstands, -, hcourse⟩ := course_run hbefore hopen hsame hl
  have hcreated := Space.initialBytes_create hcreate
  have hkept := hcourse.initialBytes_eq hstands
  obtain ⟨rest, hbalanced⟩ := hσ.balanced hl
  obtain ⟨hcache, hdirectories⟩ := hbalanced.returned
  refine ⟨s.chain.takeInitial.1, s.drop h, ?_, ?_, ?_, hcache, hdirectories, ?_⟩
  · unfold endWithInitial?
    rw [hl]
    rfl
  · intro buffer hbuffer hpos
    rw [hbuffer] at hcreated
    have hsize : s₀.chain.initialBytes = buffer.size := hcreated
    obtain ⟨data, hdata, hlength, ⟨rest, hblocks⟩, hbytes⟩ :=
      hcourse.takeInitial_eq hstands (by rw [hsize]; exact hpos)
    rw [hlength, hsize] at hblocks hbytes
    refine ⟨data, rest, hdata, hlength.trans hsize, hblocks, fun i hi => ?_⟩
    rw [hbytes i hi, Space.byteAt_create hcreate hbuffer h₀ hi]
  · intro hnone
    exact (hcourse.stands hstands).sound.layout.no_initial
      (hkept.trans (hcreated.trans hnone))
  · intro f hf
    rw [content?_drop, if_pos (List.mem_map_of_mem hf)]

/-- A buffer of six bytes. One byte is written, one is stored in memory, a record crosses the end of
the buffer, and a message takes a place that was released. One byte stays. -/
theorem initial_comes_back_written :
    let registry : Registry := ⟨Settings.exact [⟨Path.ofString "/tmp", none⟩] 64, 0, [0], 0⟩
    let b : Blueprint := { options := { initial := some (Buffer.ofList [1, 2, 3, 4, 5, 6]) } }
    let before : List Action := [.openSpace "b" true {}, .onSpace "b" (.extend 60)]
    let actions : List Action := [.onSpace "a" (.extend 4), .onSpace "a" (.write 1 [9]),
      .onSpace "a" (.store 3 1 [6]), .keepRecords "a" 4, .storeRecord "a" [7, 7, 8, 8],
      .unwrap "a", .onSpace "a" (.extend 40), .onSpace "a" (.release 0 2), .stage "a" 2,
      .onCache "a" (.putMessage [5])]
    let opened := (((ofHost ⟨registry, Disk.standard, 64⟩).run before).openSpace "a" true b).state
    ∃ l data h', (opened.run actions).endWithInitial? "a" =
        some (some data, ((opened.run actions).leaving l h').remove "a") ∧
      data.size = 6 ∧ (List.range 6).map data.byteAt = [5, 9, 3, 6, 7, 7] ∧
      h'.registry.cacheUsage = 60 ∧ h'.registry.directoryUsage 0 = 0 := by
  intro registry b before actions opened
  have hregistry : Registry.ofSettings (Settings.exact [⟨Path.ofString "/tmp", none⟩] 64) =
    .ok registry := rfl
  have hsame : ∀ action ∈ actions, ¬ action.Opens "a" := by
    simp [actions, Action.Opens]
  have hheld : ((opened.run actions).lodging? "a").map (fun l =>
      let h := (opened.run actions).hostOf l
      ((l.tenant.inner.cacheUsage, bytesIn l.tenant.inner.files.files 0),
        h.registry.cacheUsage, h.registry.directoryUsage 0)) = some ((2, 40), 62, 40) := by
    decide +kernel
  obtain ⟨l, hl, hheld⟩ := Option.map_eq_some_iff.1 hheld
  obtain ⟨hspace, haccounts⟩ := Prod.mk.inj hheld
  obtain ⟨hmemory, hfiles⟩ := Prod.mk.inj hspace
  obtain ⟨hcache, hdirectory⟩ := Prod.mk.inj haccounts
  obtain ⟨returned, h', hends, hback, -, hcache', hdirectories, -⟩ :=
    initial_comes_back hregistry Disk.standard 64 before "a" true b
      (eq_ok_of_toOption (by decide +kernel)) hsame hl
  obtain ⟨data, rest, rfl, hsize, -, hbytes⟩ := hback _ rfl (by decide)
  refine ⟨l, data, h', hends, hsize, ?_, ?_, ?_⟩
  · refine (List.map_congr_left (l := List.range 6) fun i hi => hbytes i ?_).trans ?_
    · exact List.mem_range.1 hi
    · decide +kernel
  · rw [hmemory, hcache] at hcache'
    exact Nat.add_right_cancel hcache'
  · have hdirectory' := hdirectories 0
    rw [hfiles, hdirectory] at hdirectory'
    exact Nat.add_right_cancel hdirectory'

/-- An empty buffer does not come back. -/
example :
    let registry : Registry := ⟨Settings.exact [⟨Path.ofString "/tmp", none⟩] 64, 0, [0], 0⟩
    let σ := (ofHost ⟨registry, Disk.standard, 64⟩).run
      [.openSpace "a" true { options := { initial := some (Buffer.ofList []) } },
        .onSpace "a" (.extend 3), .onSpace "a" (.write 0 [1, 2, 3])]
    (σ.endWithInitial? "a").map (fun ended => ended.1.isSome) = some false := by
  decide +kernel

end SpillStorage.Session
