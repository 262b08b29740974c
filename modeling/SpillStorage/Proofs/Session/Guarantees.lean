import SpillStorage.Proofs.Session.Sound

/-!
What holds in every session, whatever its tenants were asked for.

What is proved:
  1. `audits_pass`: the audit of a space never finds anything.
  2. `accounts_exact`: the accounts of registries are what live spaces hold, and within their
     limits; when no space is left they are zero, and no temp file of a space is left either.
  3. `refused_growth_changes_nothing`: growth that fails leaves a space, its registry and the disk
     as they were.
-/

namespace SpillStorage.Session

/-! ## Audits -/

/-- After every run of a session, whatever its settings, the audit of each space in it passes, be
the space alone or inside a record log or a staging cache, and its total of free bytes is that of
the segments in the pool. -/
theorem audits_pass {settings : Settings} {registry : Registry}
    (hregistry : Registry.ofSettings settings = .ok registry) (disk : Disk) (heap : Nat)
    (actions : List Action) {name : String} {l : Lodging}
    (hl : ((ofHost ⟨registry, disk, heap⟩).run actions).lodging? name = some l) :
    l.tenant.inner.audit.ok = true ∧ l.tenant.inner.audit.flaws = [] ∧
      l.tenant.inner.audit.totalFree =
        Offset.total (l.tenant.inner.free.segments.map Segment.size) := by
  obtain ⟨hsound, -⟩ := (sound_ofHost hregistry disk heap).run actions
  rw [((hsound.parted hl).sound l List.mem_cons_self).audit_eq]
  exact ⟨rfl, rfl, rfl⟩

/-- A space over a caller's buffer is lengthened twice and has a piece of it returned; then it
becomes a record log, which stores a record. -/
theorem audits_pass_standard :
    let actions : List Action :=
      [.openSpace "log" true { options := { initial := some (Buffer.zeros 4) } },
        .onSpace "log" (.extend 10), .onSpace "log" (.extend 6), .onSpace "log" (.release 2 6),
        .keepRecords "log" 4, .storeRecord "log" [1, 2, 3, 4]]
    ∃ l : Lodging, ((ofHost ⟨⟨Settings.standard, 0, [0], 0⟩, Disk.standard, 4096⟩).run
        actions).lodging? "log" = some l ∧
      l.tenant.inner.audit.ok = true ∧ l.tenant.inner.audit.totalFree = 6 := by
  intro actions
  have hregistry : Registry.ofSettings Settings.standard = .ok ⟨Settings.standard, 0, [0], 0⟩ := rfl
  have hl : ((ofHost ⟨⟨Settings.standard, 0, [0], 0⟩, Disk.standard, 4096⟩).run actions).lodging?
      "log" = some _ := rfl
  have hpass := audits_pass hregistry Disk.standard 4096 actions hl
  exact ⟨_, hl, hpass.1, hpass.2.2⟩

/-! ## Accounts -/

/-- After every run of a session the accounts of its registry are exact and within their limits:
they are the sums of the memory and of the files that the spaces sharing the registry hold, and so
it is for the registries that spaces brought. What a space holds of the ceiling is the bytes of
its memory blocks but for the caller's buffer, and each of its files is on the disk with the bytes
that were claimed. With no space left, the accounts are zero and only those files are left that
were there at the start. -/
theorem accounts_exact {settings : Settings} {registry : Registry}
    (hregistry : Registry.ofSettings settings = .ok registry) (disk : Disk) (heap : Nat)
    (actions : List Action) :
    let σ := (ofHost ⟨registry, disk, heap⟩).run actions
    let ls := σ.lodgings.map Prod.snd
    σ.host.registry.settings = settings ∧
    σ.host.registry.cacheUsage = Offset.total ((sharing ls).map Space.cacheUsage) ∧
    (∀ index, σ.host.registry.directoryUsage index =
      Offset.total ((sharing ls).map fun s => bytesIn s.files.files index)) ∧
    σ.host.registry.cacheUsage ≤ settings.cacheLimit ∧
    (∀ (index : Nat) (directory : TempDirectory) (limit : Nat),
      settings.directories[index]? = some directory → directory.limit = some limit →
        σ.host.registry.directoryUsage index ≤ limit) ∧
    (∀ l ∈ ls, ∀ own, l.own = some own → own.Balanced [l.tenant.inner]) ∧
    (∀ l ∈ ls, l.tenant.inner.cacheUsage = l.tenant.inner.chain.memoryBytes false ∧
      ∀ f ∈ l.tenant.inner.files.files, ∃ content, σ.host.disk.content? f.handle = some content ∧
        content.size = f.size) ∧
    (sharing ls = [] → σ.host.registry.cacheUsage = 0 ∧
      ∀ index, σ.host.registry.directoryUsage index = 0) ∧
    (ls = [] → ∀ handle,
      (σ.host.disk.content? handle).isSome ↔ (disk.content? handle).isSome) := by
  intro σ ls
  obtain ⟨⟨-, htenancy⟩, hsettings⟩ := (sound_ofHost hregistry disk heap).run actions
  have hkept : σ.host.registry.settings = settings :=
    hsettings.trans (Registry.settings_ofSettings hregistry)
  have hshared : σ.host.registry.Balanced (sharing ls) := htenancy.shared
  have hhoused : Housed _ (filesOf ls) σ.host.disk := htenancy.housed
  refine ⟨hkept, hshared.cache, hshared.directory, hkept ▸ hshared.cache_le,
    fun index directory limit => hkept ▸ hshared.directory_le index directory limit,
    htenancy.own, fun l hl => ⟨(htenancy.sound l hl).memory.symm, ?_⟩, ?_, ?_⟩
  · intro f hf
    have hbacked := hhoused.backed f (List.mem_flatMap.2 ⟨l, hl, hf⟩)
    obtain ⟨content, hcontent⟩ := Option.isSome_iff_exists.1 hbacked.exists_content
    exact ⟨content, hcontent, (Disk.content_of_content? hcontent) ▸ hbacked.size⟩
  · intro hnone
    have hcache := hshared.cache
    have hdirectory := hshared.directory
    rw [hnone] at hcache hdirectory
    exact ⟨hcache, hdirectory⟩
  · intro hnone handle
    rw [hhoused.present, hnone]
    simp [filesOf]

/-- Two spaces grow, one in memory and, past the ceiling, one on disk, where the quota has no room
for more. The first is lost to a staging cache that refuses its alignment, the other is dropped.
-/
theorem accounts_exact_two :
    let start := ofHost
      ⟨⟨Settings.exact [⟨Path.ofString "/tmp", some 32⟩] 16, 0, [0], 0⟩, Disk.standard, 64⟩
    let working : List Action := [.openSpace "a" true {}, .openSpace "b" true {},
      .onSpace "a" (.extend 10), .onSpace "b" (.extend 20), .onSpace "a" (.extend 20)]
    let leaving : List Action := [.stage "a" 3, .evict "b"]
    (start.run working).host.registry.cacheUsage = 10 ∧
      (start.run working).host.registry.directoryUsage 0 = 20 ∧
      (start.run (working ++ leaving)).host.registry.cacheUsage = 0 ∧
      (start.run (working ++ leaving)).host.registry.directoryUsage 0 = 0 ∧
      ∀ handle, (start.run (working ++ leaving)).host.disk.content? handle = none := by
  intro start working leaving
  have hregistry : Registry.ofSettings (Settings.exact [⟨Path.ofString "/tmp", some 32⟩] 16) =
    .ok ⟨Settings.exact [⟨Path.ofString "/tmp", some 32⟩] 16, 0, [0], 0⟩ := rfl
  have hended := accounts_exact hregistry Disk.standard 64 (working ++ leaving)
  obtain ⟨-, -, -, -, -, -, -, hzero, hfiles⟩ := hended
  obtain ⟨hcache, hdirectory⟩ := hzero rfl
  have hnone := hfiles rfl
  refine ⟨by decide +kernel, by decide +kernel, ?_⟩
  dsimp only [start]
  refine ⟨hcache, hdirectory 0, ?_⟩
  intro handle
  rw [← Option.not_isSome_iff_eq_none, hnone]
  simp [Disk.content?, Disk.standard, Index.get?, Index.empty]

/-! ## Growth that fails -/

/-- Growth that fails changes nothing, at any point of a session, for the space of any tenant. An
extension or an allocation that fails, for whatever reason, leaves the space as it was, and the
host: the registry with the accounts of all spaces on it, and the disk with what its directories
list. So does a batch, but for the slots of the pool: it has the same segments and counts. And so
does a claim on any spill files, though directories may have granted it a quota or made a file. -/
theorem refused_growth_changes_nothing {settings : Settings} {registry : Registry}
    (hregistry : Registry.ofSettings settings = .ok registry) (disk : Disk) (heap : Nat)
    (actions : List Action) {name : String} {l : Lodging}
    (hl : ((ofHost ⟨registry, disk, heap⟩).run actions).lodging? name = some l) :
    let s := l.tenant.inner
    let h := ((ofHost ⟨registry, disk, heap⟩).run actions).hostOf l
    (∀ size f, (s.extend h size).answer = .error f → (s.extend h size).state = (s, h)) ∧
    (∀ size f, (s.allocate h size).answer = .error f → (s.allocate h size).state = (s, h)) ∧
    (∀ count least greatest f, (s.allocateBatch h count least greatest).answer = .error f →
      ∃ free : Pool,
        (s.allocateBatch h count least greatest).state = ({ s with free := free }, h) ∧
        free.segments = s.free.segments ∧ free.freeBytes = s.free.freeBytes ∧
          free.count = s.free.count ∧ free.largest = s.free.largest) ∧
    ∀ (files : SpillFiles) size f, (files.claim h size).answer = .error f →
      (files.claim h size).state = (files, h) := by
  intro s h
  obtain ⟨hsound, -⟩ := (sound_ofHost hregistry disk heap).run actions
  have hs : s.Sound := (hsound.parted hl).sound l List.mem_cons_self
  refine ⟨fun size f => Space.extend_error, fun size f => Space.allocate_error, ?_, ?_⟩
  · intro count least greatest f hfailed
    exact Space.allocateBatch_restores hs hfailed
  · intro files size f
    exact SpillFiles.claim_error

/-- A batch has carved both free segments when growth fails: the ceiling is reached, and the file
that was made cannot be as long as what is missing. -/
theorem refused_growth_changes_nothing_batch :
    let actions : List Action := [.openSpace "a" true {}, .onSpace "a" (.extend 16),
      .onSpace "a" (.release 2 3), .onSpace "a" (.release 10 2)]
    let σ := (ofHost ⟨⟨Settings.exact [⟨Path.ofString "/tmp", none⟩] 16, 0, [0], 0⟩,
      Disk.standard, 64⟩).run actions
    ∃ l, σ.lodging? "a" = some l ∧
      (∃ f, (l.tenant.inner.allocateBatch (σ.hostOf l) (Nat.pow 2 43) 2 4).answer = .error f) ∧
      (l.tenant.inner.allocateBatch (σ.hostOf l) (Nat.pow 2 43) 2 4).state.2 = σ.hostOf l ∧
      (l.tenant.inner.allocateBatch (σ.hostOf l) (Nat.pow 2 43) 2 4).state.1.free.segments =
        [⟨2, 3⟩, ⟨10, 2⟩] := by
  intro actions σ
  have hregistry : Registry.ofSettings (Settings.exact [⟨Path.ofString "/tmp", none⟩] 16) =
    .ok ⟨Settings.exact [⟨Path.ofString "/tmp", none⟩] 16, 0, [0], 0⟩ := rfl
  obtain ⟨l, hl, hfailed, hfree⟩ : ∃ l, σ.lodging? "a" = some l ∧
      (l.tenant.inner.allocateBatch (σ.hostOf l) (Nat.pow 2 43) 2 4).answer.toOption = none ∧
      l.tenant.inner.free.segments = [⟨2, 3⟩, ⟨10, 2⟩] :=
    ⟨_, rfl, by decide +kernel, by decide +kernel⟩
  obtain ⟨-, -, hbatch, -⟩ :=
    refused_growth_changes_nothing hregistry Disk.standard 64 actions hl
  cases hanswer : (l.tenant.inner.allocateBatch (σ.hostOf l) (Nat.pow 2 43) 2 4).answer with
  | ok regions =>
    rw [hanswer] at hfailed
    cases hfailed
  | error f =>
    obtain ⟨free, hstate, hsegments, -⟩ := hbatch _ _ _ f hanswer
    refine ⟨l, hl, ⟨f, hanswer⟩, ?_, ?_⟩
    · exact congrArg Prod.snd hstate
    · rw [hstate]
      exact hsegments.trans hfree

end SpillStorage.Session
