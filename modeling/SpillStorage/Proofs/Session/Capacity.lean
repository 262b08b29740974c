import SpillStorage.Proofs.Session.Course
import SpillStorage.Proofs.Space.Capacity

/-!
How much a space of some size takes up, at any point of a session.

What is proved:
  1. `capacity_of_size`: the chain of a space is the caller's buffer and the least multiple of the
     granularity that the rest of the space needs, however the space came to its size; it consists
     of the buffer, the space's share of the ceiling and its files, and less than the granularity is
     unused.
-/

namespace SpillStorage.Session

/-- What a space takes up depends on its size only. Open a space in a session after any actions, on
the session's registry or on one of its own, with a caller's buffer of `n` bytes or without one, for
which `n` is zero. Then let anything happen, other tenants' and refused actions among it, as long
as no other space is opened under the name. Let `g` be the granularity of the registry. However
growth was split into calls and wherever it landed, the bytes covered by blocks are `n` and the
least multiple of `g` that is at least what the size exceeds `n` by. They are those of the buffer,
those held of the memory ceiling and those of the space's files. Once the size exceeds `n`, at most
`g - 1` bytes at the end are unused. -/
theorem capacity_of_size {settings : Settings} {registry : Registry}
    (hregistry : Registry.ofSettings settings = .ok registry) (disk : Disk) (heap : Nat)
    (before : List Action) (name : String) (shared : Bool) (b : Blueprint)
    (hopen : (((ofHost ⟨registry, disk, heap⟩).run before).openSpace name shared b).answer =
      .ok ())
    {actions : List Action} (hsame : ∀ action ∈ actions, ¬ action.Opens name) {l : Lodging}
    (hl : ((((ofHost ⟨registry, disk, heap⟩).run before).openSpace name shared b).state.run
      actions).lodging? name = some l) :
    let s := l.tenant.inner
    let n := (b.options.initial.map Buffer.size).getD 0
    let g := (if shared then settings else b.settings).granularity
    (∃ m, IsLeast {m | g ∣ m ∧ s.logicalSize - n ≤ m} m ∧ s.physicalSize = n + m) ∧
      s.physicalSize = n + s.cacheUsage + s.files.totalSize ∧
      (n < s.logicalSize → s.physicalSize - s.logicalSize ≤ g - 1) := by
  intro s n g
  obtain ⟨hbefore, hsettings⟩ := (sound_ofHost hregistry disk heap).run before
  have hkept := hsettings.trans (Registry.settings_ofSettings hregistry)
  obtain ⟨s₀, h₀, r, r', hcreate, hstands, howned, hcourse⟩ := course_run hbefore hopen hsame hl
  have hpos : 0 < g := Nat.lt_of_lt_of_le Nat.zero_lt_one (Nat.le_max_right _ _)
  have hgranularity : h₀.registry.settings.granularity = g := by
    -- where the system wants temporaries has no part in it
    rw [howned, hkept]
    cases shared <;> rfl
  have hsnug : s.Snug n g :=
    hcourse.snug hstands hpos hgranularity (Space.snug_create g hcreate)
  have hs : s.Sound := (hcourse.stands hstands).sound
  have hinitial : s.chain.initialBytes = n :=
    (hcourse.initialBytes_eq hstands).trans (Space.initialBytes_create hcreate)
  refine ⟨?_, ?_, hsnug.unused_le hpos⟩
  · obtain ⟨m, hphysical, hleast⟩ := hsnug
    exact ⟨m, hleast, hphysical⟩
  · rw [Space.physicalSize, hs.layout.size_eq, hinitial, hs.memory, hs.file]

/-- A buffer of five bytes and blocks of four, under a ceiling of eight bytes. The space grows
within the buffer, to a memory block, within its slack, to a file and by a batch to another memory
block. Another space grows meanwhile, and a write is refused. -/
theorem capacity_of_size_spilled :
    let b : Blueprint :=
      { cacheLimit := some 8
        minBlockSize := some 4
        options := { initial := some (Buffer.zeros 5) } }
    let before : List Action := [.openSpace "b" true {}, .onSpace "b" (.extend 2)]
    let actions : List Action := [.onSpace "a" (.extend 3), .onSpace "a" (.extend 4),
      .onSpace "a" (.extend 1), .onSpace "b" (.extend 2), .onSpace "a" (.extend 9),
      .onSpace "a" (.write 40 [1]), .onSpace "a" (.batch 1 2 3)]
    let σ := (((ofHost ⟨⟨Settings.exact [⟨Path.ofString "/tmp", none⟩] 64, 0, [0], 0⟩,
      Disk.standard, 64⟩).run before).openSpace "a" false b).state.run actions
    ∃ l, σ.lodging? "a" = some l ∧
      (l.tenant.inner.logicalSize, l.tenant.inner.cacheUsage, l.tenant.inner.files.totalSize) =
        (19, 8, 8) ∧
      IsLeast {m | 4 ∣ m ∧ 19 - 5 ≤ m} 16 ∧ l.tenant.inner.physicalSize = 5 + 16 ∧
      l.tenant.inner.physicalSize = 5 + 8 + 8 ∧
      l.tenant.inner.physicalSize - 19 ≤ 3 := by
  intro b before actions σ
  have hregistry : Registry.ofSettings (Settings.exact [⟨Path.ofString "/tmp", none⟩] 64) =
    .ok ⟨Settings.exact [⟨Path.ofString "/tmp", none⟩] 64, 0, [0], 0⟩ := rfl
  have hsame : ∀ action ∈ actions, ¬ action.Opens "a" := by
    simp [actions, Action.Opens]
  have hsizes : (σ.lodging? "a").map (fun l => (l.tenant.inner.logicalSize,
      l.tenant.inner.cacheUsage, l.tenant.inner.files.totalSize)) = some (19, 8, 8) := by
    decide +kernel
  obtain ⟨l, hl, hsizes⟩ := Option.map_eq_some_iff.1 hsizes
  obtain ⟨hlength, hrest⟩ := Prod.mk.inj hsizes
  obtain ⟨hcache, hfiles⟩ := Prod.mk.inj hrest
  obtain ⟨⟨m, hleast, hphysical⟩, hparts, hunused⟩ := capacity_of_size hregistry Disk.standard 64
    before "a" false b (eq_ok_of_toOption (by decide +kernel)) hsame hl
  rw [hlength] at hleast hunused
  rw [hcache, hfiles] at hparts
  have hm : m = 16 := Nat.add_left_cancel (hphysical.symm.trans hparts)
  subst hm
  exact ⟨l, hl, hsizes, hleast, hphysical, hparts, hunused (by decide)⟩

end SpillStorage.Session
