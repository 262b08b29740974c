import SpillStorage.Proofs.Space.Housed

/-!
The accounts of a registry against what its spaces hold.

What is proved:
  1. `Balanced.change` and `Balanced.changes`: what a space does to itself and to the registry keeps
     the accounts exact and within their limits.
  2. `Balanced.drop` and `Balanced.returned`: a space that is dropped takes from every account just
     what it put there.
  3. `content?_drop`: it deletes its own files and no others.
-/

namespace SpillStorage

open Relation

/-- The bytes of those files that one directory hosts. -/
def bytesIn (files : List TempFile) (index : Nat) : Nat :=
  Offset.total ((files.filter fun f => f.directory == index).map TempFile.size)

theorem bytesIn_cons (f : TempFile) (rest : List TempFile) (index : Nat) :
    bytesIn (f :: rest) index =
      (if f.directory = index then f.size else 0) + bytesIn rest index := by
  by_cases h : f.directory = index
  · simp [bytesIn, h, Offset.total]
  · simp [bytesIn, h]

theorem bytesIn_append (xs ys : List TempFile) (index : Nat) :
    bytesIn (xs ++ ys) index = bytesIn xs index + bytesIn ys index := by
  simp [bytesIn, Offset.total_append]

theorem bytesIn_set {files : List TempFile} {place : Nat} {file : TempFile}
    (hfile : files[place]? = some file) (size index : Nat) :
    bytesIn (files.set place { file with size := file.size + size }) index =
      bytesIn files index + if index = file.directory then size else 0 := by
  induction files generalizing place with
  | nil => cases hfile
  | cons f rest ih =>
    cases place with
    | zero =>
      cases hfile
      rw [List.set_cons_zero, bytesIn_cons, bytesIn_cons]
      by_cases h : file.directory = index
      · simp only [h, if_true]
        omega
      · have h' : ¬ index = file.directory := fun heq => h heq.symm
        simp only [h, h', if_false, Nat.add_zero]
    | succ place =>
      have hrest : rest[place]? = some file := hfile
      rw [List.set_cons_succ, bytesIn_cons, bytesIn_cons, ih hrest, Nat.add_assoc]

/-- A claim adds to one directory. -/
theorem bytesIn_claims {s s' : SpillFiles} {h h' : Host} {size : Nat} {extent : Extent}
    (hclaims : s.Claims h size s' h' extent) :
    ∃ index registry, h.registry.reserveDirectory? index size = some registry ∧
      h'.registry = registry ∧ ∀ other,
        bytesIn s'.files other = bytesIn s.files other + if other = index then size else 0 := by
  cases hclaims with
  | @lengthened place index file registry hfile hdirectory hreserved hle =>
    refine ⟨index, registry, hreserved, rfl, ?_⟩
    intro other
    rw [← hdirectory]
    exact bytesIn_set hfile size other
  | @created index handle path greatest registry disk hreserved hcreated hle =>
    refine ⟨index, registry, hreserved, rfl, ?_⟩
    intro other
    rw [bytesIn_append, bytesIn_cons]
    by_cases heq : index = other
    · simp [heq, bytesIn, Offset.total]
    · have hne : ¬ other = index := fun h => heq h.symm
      simp [heq, hne, bytesIn, Offset.total]

namespace Registry

/-- The accounts are the sums of what the spaces hold, and within their limits. -/
structure Balanced (r : Registry) (spaces : List Space) : Prop where
  accounts : r.directoryUsages.length = r.settings.directories.length
  cache : r.cacheUsage = Offset.total (spaces.map Space.cacheUsage)
  directory : ∀ index, r.directoryUsage index =
    Offset.total (spaces.map fun s => bytesIn s.files.files index)
  cache_le : r.cacheUsage ≤ r.settings.cacheLimit
  directory_le : ∀ (index : Nat) (directory : TempDirectory) (limit : Nat),
    r.settings.directories[index]? = some directory → directory.limit = some limit →
      r.directoryUsage index ≤ limit

theorem balanced_ofSettings {settings : Settings} {r : Registry}
    (h : ofSettings settings = .ok r) : r.Balanced [] := by
  unfold ofSettings at h
  split at h
  · cases h
  · cases h
    have hzero : ∀ index,
        directoryUsage ⟨settings, 0, settings.directories.map fun _ => 0, 0⟩ index = 0 := by
      intro index
      simp only [directoryUsage, List.getD_eq_getElem?_getD, List.getElem?_map]
      cases settings.directories[index]? <;> rfl
    exact ⟨List.length_map _, rfl, hzero, Nat.zero_le _, fun index _ _ _ _ => by
      rw [hzero]
      exact Nat.zero_le _⟩

theorem settings_ofSettings {settings : Settings} {r : Registry}
    (h : ofSettings settings = .ok r) : r.settings = settings := by
  unfold ofSettings at h
  split at h
  · cases h
  · cases h
    rfl

namespace Balanced

theorem perm {r : Registry} {spaces spaces' : List Space} (h : r.Balanced spaces)
    (hp : spaces.Perm spaces') : r.Balanced spaces' :=
  ⟨h.accounts, h.cache.trans (Offset.total_perm (hp.map _)),
    fun index => (h.directory index).trans (Offset.total_perm (hp.map _)), h.cache_le,
    h.directory_le⟩

theorem enroll {r : Registry} {spaces : List Space} (h : r.Balanced spaces) :
    r.enroll.2.Balanced spaces :=
  ⟨h.accounts, h.cache, h.directory, h.cache_le, h.directory_le⟩

/-- A space that holds nothing may join. -/
theorem receive {r : Registry} {spaces : List Space} (h : r.Balanced spaces) {s : Space}
    (hcache : s.cacheUsage = 0) (hfiles : s.files.files = []) : r.Balanced (s :: spaces) := by
  refine ⟨h.accounts, ?_, ?_, h.cache_le, h.directory_le⟩
  · rw [List.map_cons, Offset.total, hcache, Nat.zero_add, h.cache]
  · intro index
    rw [List.map_cons, Offset.total, hfiles, h.directory]
    exact (Nat.zero_add _).symm

/-- The accounts see nothing of a space but its memory and its files. -/
theorem congr {r : Registry} {s s' : Space} {rest : List Space} (h : r.Balanced (s :: rest))
    (hcache : s'.cacheUsage = s.cacheUsage) (hfiles : s'.files = s.files) :
    r.Balanced (s' :: rest) := by
  refine ⟨h.accounts, ?_, ?_, h.cache_le, h.directory_le⟩
  · rw [h.cache, List.map_cons, List.map_cons, hcache]
  · intro index
    rw [h.directory, List.map_cons, List.map_cons, hfiles]

theorem grows {s s' : Space} {h h' : Host} {amount : Nat} (hg : s.Grows h amount s' h')
    {rest : List Space} (hb : h.registry.Balanced (s :: rest)) :
    h'.registry.Balanced (s' :: rest) ∧ h'.registry.settings = h.registry.settings := by
  cases hg with
  | memory hreserved =>
    obtain ⟨rfl, hle⟩ := reserveCache?_some hreserved
    refine ⟨⟨hb.accounts, ?_, hb.directory, hle, hb.directory_le⟩, rfl⟩
    have hcache := hb.cache
    rw [List.map_cons, Offset.total] at hcache ⊢
    simp only
    omega
  | file hclaims =>
    obtain ⟨index, registry, hreserved, hregistry, hbytes⟩ := bytesIn_claims hclaims
    obtain ⟨directory, hdirectory, rfl, hle⟩ := reserveDirectory?_some hreserved
    -- the directory that granted the bytes is one of the settings, so it has an account
    have hlt : index < h.registry.directoryUsages.length := by
      rw [hb.accounts]
      exact (List.getElem?_eq_some_iff.1 hdirectory).1
    have husage := directoryUsage_set (h.registry.directoryUsage index + amount) hlt
    rw [hregistry]
    refine ⟨⟨?_, hb.cache, ?_, hb.cache_le, ?_⟩, rfl⟩
    · rw [← hb.accounts]
      exact List.length_set
    · intro other
      have hsum := hb.directory other
      rw [List.map_cons, Offset.total] at hsum ⊢
      rw [husage, hbytes]
      split
      · next heq =>
        subst heq
        omega
      · omega
    · intro other d limit hd hlimit
      rw [husage]
      split
      · next heq =>
        subst heq
        rw [hdirectory] at hd
        cases hd
        exact hle limit hlimit
      · exact hb.directory_le other d limit hd hlimit

/-- A change of a space keeps the accounts of its registry exact and within their limits. -/
theorem change {a b : Space × Host} (hc : Space.Change a b) (ha : a.1.Sound) {rest : List Space}
    (hb : a.2.registry.Balanced (a.1 :: rest)) :
    b.2.registry.Balanced (b.1 :: rest) ∧ b.2.registry.settings = a.2.registry.settings := by
  cases hc with
  | quiet hquiet =>
    cases hquiet with
    | pool => exact ⟨hb.congr rfl rfl, rfl⟩
    | lengthen => exact ⟨hb.congr rfl rfl, rfl⟩
    | grow hamount hgrows => exact hb.grows hgrows
  | write s h offset bytes =>
    obtain ⟨chain, disk, heq, -⟩ := Space.outline_write ha h offset bytes
    rw [heq]
    exact ⟨hb.congr rfl rfl, rfl⟩
  | store h hstore =>
    obtain ⟨chain, rfl, -⟩ := Space.outline_store ha hstore
    exact ⟨hb.congr rfl rfl, rfl⟩

theorem changes {a b : Space × Host} (hrun : ReflTransGen Space.Change a b) (ha : a.1.Sound)
    {rest : List Space} (hb : a.2.registry.Balanced (a.1 :: rest)) :
    b.2.registry.Balanced (b.1 :: rest) ∧ b.2.registry.settings = a.2.registry.settings := by
  refine (Space.changes_induction (P := fun c => c.2.registry.Balanced (c.1 :: rest) ∧
    c.2.registry.settings = a.2.registry.settings) ?_ hrun ha
    ⟨hb, rfl⟩).2
  intro c d hsound hchange hc
  obtain ⟨hbalanced, hsettings⟩ := change hchange hsound hc.1
  exact ⟨hbalanced, hsettings.trans hc.2⟩

end Balanced

end Registry

/-! ## Dropping -/

/-- What dropping files leaves of a host: the accounts of their directories and the files behind
their handles are all that changes. -/
theorem drop_spec (files : List TempFile) (h : Host) :
    let dropped := files.foldl
      (fun h file =>
        { h.releaseDirectory file.directory file.size with disk := h.disk.dropTemp file.handle }) h
    dropped.registry.settings = h.registry.settings ∧
    dropped.registry.cacheUsage = h.registry.cacheUsage ∧
    dropped.registry.directoryUsages.length = h.registry.directoryUsages.length ∧
    (∀ index, dropped.registry.directoryUsage index =
      h.registry.directoryUsage index - bytesIn files index) ∧
    ∀ handle, dropped.disk.content? handle =
      if handle ∈ files.map TempFile.handle then none else h.disk.content? handle := by
  induction files generalizing h with
  | nil => exact ⟨rfl, rfl, rfl, fun _ => rfl, fun handle => by simp⟩
  | cons f rest ih =>
    obtain ⟨hsettings, hcache, hlength, husage, hcontent⟩ := ih
      { h.releaseDirectory f.directory f.size with disk := h.disk.dropTemp f.handle }
    refine ⟨hsettings, hcache, hlength.trans (List.length_modify ..), ?_, ?_⟩
    · intro index
      rw [List.foldl_cons, husage, bytesIn_cons]
      simp only [Host.releaseDirectory, Registry.directoryUsage_releaseDirectory]
      by_cases heq : f.directory = index
      · rw [if_pos heq.symm, if_pos heq]
        omega
      · rw [if_neg (fun h => heq h.symm), if_neg heq, Nat.zero_add]
    · intro handle
      rw [List.foldl_cons, hcontent, List.map_cons]
      simp only [Disk.content?_dropTemp, List.mem_cons]
      by_cases hrest : handle ∈ rest.map TempFile.handle
      · rw [if_pos hrest, if_pos (.inr hrest)]
      · rw [if_neg hrest]
        by_cases heq : handle = f.handle
        · rw [if_pos heq, if_pos (.inl heq)]
        · rw [if_neg heq, if_neg (by simp [heq, hrest])]

theorem content?_drop (s : Space) (h : Host) (handle : Nat) :
    (s.drop h).disk.content? handle =
      if handle ∈ s.files.files.map TempFile.handle then none else h.disk.content? handle :=
  (drop_spec s.files.files (h.releaseCache s.cacheUsage)).2.2.2.2 handle

/-- A dropped space takes its own from the accounts, and nothing else. -/
theorem Registry.Balanced.drop {s : Space} {h : Host} {rest : List Space}
    (hb : h.registry.Balanced (s :: rest)) :
    (s.drop h).registry.Balanced rest ∧ (s.drop h).registry.settings = h.registry.settings := by
  obtain ⟨hsettings, hcache, hlength, husage, -⟩ :=
    drop_spec s.files.files (h.releaseCache s.cacheUsage)
  -- the space's share is in the account, so the subtraction does not stop at zero
  have hsum := hb.cache
  rw [List.map_cons, Offset.total] at hsum
  have hcache' : (s.drop h).registry.cacheUsage = Offset.total (rest.map Space.cacheUsage) := by
    rw [Space.drop, SpillFiles.drop, hcache]
    simp only [Host.releaseCache, Registry.releaseCache]
    omega
  have husage' : ∀ index, (s.drop h).registry.directoryUsage index =
      h.registry.directoryUsage index - bytesIn s.files.files index := husage
  refine ⟨⟨?_, hcache', ?_, ?_, ?_⟩, hsettings⟩
  · exact hlength.trans (hb.accounts.trans (by rw [Space.drop, SpillFiles.drop, hsettings]; rfl))
  · intro index
    have hsum' := hb.directory index
    rw [List.map_cons, Offset.total] at hsum'
    rw [husage']
    omega
  · have hle := hb.cache_le
    rw [hcache']
    refine Nat.le_trans ?_ (hle.trans (Nat.le_of_eq (congrArg Settings.cacheLimit hsettings.symm)))
    omega
  · intro index directory limit hd hlimit
    have hd' : h.registry.settings.directories[index]? = some directory := by
      rw [← hd]
      exact (congrArg (fun t : Settings => t.directories[index]?) hsettings).symm
    have hle := hb.directory_le index directory limit hd' hlimit
    rw [husage']
    omega

/-- What is dropped and what is left make up the accounts. -/
theorem Registry.Balanced.returned {s : Space} {h : Host} {rest : List Space}
    (hb : h.registry.Balanced (s :: rest)) :
    (s.drop h).registry.cacheUsage + s.cacheUsage = h.registry.cacheUsage ∧
      ∀ index, (s.drop h).registry.directoryUsage index + bytesIn s.files.files index =
        h.registry.directoryUsage index := by
  obtain ⟨hrest, -⟩ := hb.drop
  refine ⟨?_, fun index => ?_⟩
  · rw [hrest.cache, hb.cache, List.map_cons, Offset.total, Nat.add_comm]
  · rw [hrest.directory, hb.directory, List.map_cons, Offset.total, Nat.add_comm]

end SpillStorage
