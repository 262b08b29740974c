import SpillStorage.Proofs.Chain.Checked
import SpillStorage.Proofs.Session.History

/-!
Where the spaces of a session grow.

What is proved:
  1. `growth_first_fit`: at any point of a session, what a space lacks comes in one memory block if
     there is room in memory, else from the first directory that can host it, and every account
     tells so. A space has one file in a directory at most, and what its blocks refer to stays where
     it is.

How long a file can get is up to its directory: the disk tells it when the file is made, and any
length below `2 ^ 63` will do.
-/

namespace SpillStorage.Session

open Space (RoomInMemory)

/-- The registry that counts for a lodging has an account for each directory. -/
theorem Sound.accounts {others : Nat → Prop} {σ : Session} {name : String} (hσ : Sound others σ)
    {l : Lodging} (hl : σ.lodging? name = some l) :
    (σ.hostOf l).registry.directoryUsages.length =
      (σ.hostOf l).registry.settings.directories.length := by
  obtain ⟨rest, hbalanced⟩ := hσ.balanced hl
  exact hbalanced.accounts

/-- Growth goes where the policy says, at any point of a session, for the space of any tenant. Let
an extension, or an allocation that the pool cannot meet, lack `amount` bytes, and let the blocks
stay below `2 ^ 64` bytes with them. If there is room for them in memory, one memory block is
appended to the chain and paid for, and neither a file nor the account of a directory changes.
Otherwise they go to the first directory that can host them, to the end of its file or to a new one,
and nothing else changes. Neither way does a sum leave the range. If no directory can, the space is
out of room, every directory says why, in their order, and nothing changes. A space has at most one
file in a directory. A block in a file lies in a file that there is; and for as long as no other
space is opened under the name, that file stays at its place, and only gets longer. -/
theorem growth_first_fit {settings : Settings} {registry : Registry}
    (hregistry : Registry.ofSettings settings = .ok registry) (disk : Disk) (heap : Nat)
    (actions : List Action) {name : String} {l : Lodging}
    (hl : ((ofHost ⟨registry, disk, heap⟩).run actions).lodging? name = some l) :
    let σ := (ofHost ⟨registry, disk, heap⟩).run actions
    let s := l.tenant.inner
    let h := σ.hostOf l
    let directories := h.registry.settings.directories
    (∀ size amount, s.Lacks h size amount →
      (s.free.allocate size = none →
        s.allocate h size = (s.extend h size).map fun () => s.logicalSize) ∧
      (RoomInMemory h amount → s.physicalSize + amount < Offset.bound →
        s.chain.pushMemoryChecked (Buffer.zeros amount) false =
          some (s.chain.pushMemory (Buffer.zeros amount) false) ∧
        s.extend h size = .ok
          ({ s with
              chain := ⟨s.chain.blocks ++
                [⟨s.chain.size, amount, .memory (Buffer.zeros amount) false⟩],
                s.chain.size + amount⟩
              cacheUsage := s.cacheUsage + amount
              logicalSize := s.logicalSize + size },
            { h with
              registry := { h.registry with cacheUsage := h.registry.cacheUsage + amount } }) ()) ∧
      (¬ RoomInMemory h amount →
        (∀ index directory, s.files.FirstHost h amount index directory →
          s.physicalSize + amount < Offset.bound →
          ∃ files h' extent, s.files.Hosted h directory index amount files h' extent ∧
            s.chain.pushFileChecked extent.file extent.offset amount =
              some (s.chain.pushFile extent.file extent.offset amount) ∧
            s.extend h size = .ok
              ({ s with
                  files := files
                  chain := (s.chain.pushFile extent.file extent.offset amount).2
                  logicalSize := s.logicalSize + size }, h') ()) ∧
        (s.files.NoHost h amount →
          ∃ refusals, s.extend h size = .fail (s, h) (.outOfTempSpace amount refusals) ∧
            refusals.length = directories.length ∧
            ∀ (index : Nat) (directory : TempDirectory), directories[index]? = some directory →
              ∃ refusal, refusals[index]? = some refusal ∧
                s.files.Refuses h directory index amount refusal))) ∧
    OneEach s.files.files ∧
    (∀ b ∈ s.chain.blocks, ∀ file offset, b.backing = .file file offset →
      ∃ f, s.files.files[file]? = some f ∧ offset + b.size ≤ f.size) ∧
    ∀ later : List Action, (∀ action ∈ later, ¬ action.Opens name) →
      ∀ l', (σ.run later).lodging? name = some l' →
        Prolongs s.files.files l'.tenant.inner.files.files := by
  intro σ s h directories
  have hnew := sound_ofHost hregistry disk heap
  have hσ := (hnew.run actions).1
  obtain ⟨hs, others, hhoused⟩ := hσ.stands hl
  have haccounts := hσ.accounts hl
  have hone : OneEach s.files.files :=
    (arises_run hnew (fun name l hl => by cases hl) actions hl).oneEach
  refine ⟨fun size amount hlacks => ⟨?_, ?_, fun hfull => ⟨?_, ?_⟩⟩, hone, ?_, ?_⟩
  · exact Space.allocate_eq_extend h hlacks.positive
  · exact fun hroom hbound => ⟨Chain.pushMemoryChecked_eq hbound false,
      Space.extend_in_memory hlacks hroom⟩
  · intro index directory hfirst hbound
    obtain ⟨files, h', extent, hclaim, hhosted⟩ :=
      SpillFiles.claim_first hone hhoused haccounts hfirst
    exact ⟨files, h', extent, hhosted,
      Chain.pushFileChecked_eq hs.layout.seated hhoused.backed hbound _ _,
      Space.extend_on_disk hlacks hfull hclaim⟩
  · intro hnone
    obtain ⟨refusals, hclaim, hreasons⟩ :=
      SpillFiles.claim_refused hone hhoused haccounts hnone
    exact ⟨refusals, Space.extend_refused hlacks hfull hclaim, hreasons⟩
  · intro b hb file offset hfile
    exact hs.layout.file_exists hb hfile
  · intro later hsame l' hl'
    obtain ⟨l₀, hl₀, hevolves⟩ := evolves_run hσ hsame hl'
    rw [hl] at hl₀
    cases hl₀
    exact hevolves.prolongs

/-- Three directories, of which the second is missing. Files in the first get no longer than sixteen
bytes; the third has a limit of its own. Three bytes fit under the ceiling. Of fifteen bytes, the
file in the first directory has not room for all, so they go to the file in the third, behind what
is there. No directory can host thirty. Then a request that the first directory can meet lengthens
its file, which is in front of the other one. -/
theorem growth_first_fit_directories :
    let directories : List TempDirectory := [⟨Path.ofString "/a", none⟩,
      ⟨Path.ofString "/missing", none⟩, ⟨Path.ofString "/b", some 40⟩]
    let disk := Disk.standard fun place =>
      if place = ["a".toByteArray.data.toList] then ⟨16, by decide⟩ else Disk.usualLength
    let actions : List Action := [.makeDirectory (Path.ofString "/a"),
      .makeDirectory (Path.ofString "/b"), .openSpace "s" true {}, .onSpace "s" (.extend 5),
      .onSpace "s" (.extend 10), .onSpace "s" (.extend 20)]
    let σ := (ofHost ⟨⟨Settings.exact directories 8, 0, [0, 0, 0], 0⟩, disk, 64⟩).run actions
    ∃ l, σ.lodging? "s" = some l ∧
      let s := l.tenant.inner
      let h := σ.hostOf l
      (∃ s' h', s.extend h 3 = .ok (s', h') () ∧ h'.registry.cacheUsage = 8 ∧ s'.files = s.files) ∧
      (∃ s' h', s.extend h 15 = .ok (s', h') () ∧ h'.registry.directoryUsage 0 = 10 ∧
        h'.registry.directoryUsage 2 = 35) ∧
      (∃ refusals, s.extend h 30 = .fail (s, h) (.outOfTempSpace 30 refusals) ∧
        refusals.length = 3) ∧
      ∃ l', (σ.run [.onSpace "s" (.extend 6)]).lodging? "s" = some l' ∧
        Prolongs s.files.files l'.tenant.inner.files.files ∧
        l'.tenant.inner.files.files.map TempFile.size = [16, 20] := by
  intro directories disk actions σ
  have hvalid : (Settings.exact directories 8).validate = .ok () :=
    eq_ok_of_toOption (by decide +kernel)
  have hregistry : Registry.ofSettings (Settings.exact directories 8) =
      .ok ⟨Settings.exact directories 8, 0, [0, 0, 0], 0⟩ := by
    rw [Registry.ofSettings, hvalid]
    rfl
  have hopen : (σ.lodging? "s").isSome := by decide +kernel
  obtain ⟨l, hl⟩ := Option.isSome_iff_exists.1 hopen
  have hconditions : (σ.lodging? "s").map (fun l =>
      let s := l.tenant.inner
      let h := σ.hostOf l
      decide (s.physicalSize = 35 ∧ (s.Lacks h 3 3 ∧ RoomInMemory h 3) ∧
        (s.Lacks h 15 15 ∧ ¬ RoomInMemory h 15 ∧
          s.files.FirstHost h 15 2 ⟨Path.ofString "/b", some 40⟩) ∧
        s.Lacks h 30 30 ∧ ¬ RoomInMemory h 30 ∧ s.files.NoHost h 30)) = some true := by
    decide +kernel
  have haccounts : (σ.lodging? "s").map (fun l => ((σ.hostOf l).registry.settings,
      (σ.hostOf l).registry.cacheUsage, (σ.hostOf l).registry.directoryUsages)) =
      some (Settings.exact directories 8, 5, [10, 0, 20]) := by
    decide +kernel
  have hlater : ((σ.run [.onSpace "s" (.extend 6)]).lodging? "s").map
      (fun l => l.tenant.inner.files.files.map TempFile.size) = some [16, 20] := by
    decide +kernel
  rw [hl] at hconditions haccounts
  obtain ⟨hsize, ⟨hlacks, hroom⟩, ⟨hlacks', hfull, hfirst⟩, hlacks'', hfull', hnone⟩ :=
    of_decide_eq_true (Option.some.inj hconditions)
  have hbound : ∀ amount ≤ 15, l.tenant.inner.physicalSize + amount < Offset.bound := by
    intro amount hle
    have : 50 < Offset.bound := by decide
    omega
  obtain ⟨hsettings, hrest⟩ := Prod.mk.inj (Option.some.inj haccounts)
  obtain ⟨hcache, husages⟩ := Prod.mk.inj hrest
  obtain ⟨hgrows, -, -, hstays⟩ := growth_first_fit hregistry disk 64 actions hl
  obtain ⟨-, hmemory⟩ := (hgrows 3 3 hlacks).2.1 hroom (hbound 3 (by decide))
  refine ⟨l, hl, ⟨_, _, hmemory, ?_, rfl⟩, ?_, ?_, ?_⟩
  · exact congrArg (· + 3) hcache
  · obtain ⟨files, h', extent, hhosted, -, hdisk⟩ :=
      ((hgrows 15 15 hlacks').2.2 hfull).1 2 _ hfirst (hbound 15 (by decide))
    refine ⟨_, h', hdisk, ?_, ?_⟩
    · rw [hhosted.usage, Registry.directoryUsage, husages]
      rfl
    · rw [hhosted.usage, Registry.directoryUsage, husages]
      rfl
  · obtain ⟨refusals, hrefused, hreasons, -⟩ := ((hgrows 30 30 hlacks'').2.2 hfull').2 hnone
    refine ⟨refusals, hrefused, ?_⟩
    rw [hreasons, hsettings]
    rfl
  · obtain ⟨l', hl', hsizes⟩ := Option.map_eq_some_iff.1 hlater
    refine ⟨l', hl', hstays _ ?_ l' hl', hsizes⟩
    intro action haction
    rw [List.mem_singleton.1 haction]
    rintro ⟨shared, b, hopens⟩
    cases hopens

/-- The ceiling and the limit of a directory can be used up, and not a byte more. -/
example :
    let σ := (ofHost ⟨⟨Settings.exact [⟨Path.ofString "/tmp", some 16⟩] 8, 0, [0], 0⟩,
      Disk.standard, 64⟩).run [.openSpace "a" true {}, .onSpace "a" (.extend 8),
        .onSpace "a" (.extend 16), .onSpace "a" (.extend 1)]
    (σ.host.registry.cacheUsage, σ.host.registry.directoryUsages) = (8, [16]) := by
  decide +kernel

end SpillStorage.Session
