import SpillStorage.Proofs.Accounts
import SpillStorage.Proofs.Space.Housed

/-!
Where growth goes.

What is proved:
  1. `claimIn_ok` and `claimIn_of_hosts`: a directory meets a claim exactly if it can host the
     bytes, and then its file, an old or a new one, gets longer by them, and nothing else changes.
  2. `claim_first` and `claim_refused`: the first directory that can host them does; if there is
     none, every directory says why, in order.
  3. `extend_in_memory`, `extend_on_disk` and `extend_refused`: so a space that lacks bytes gets
     them in memory if there is room, else from the first directory that can host them.

`Hosts` is told from the accounts, the files and the disk before the claim. It does not speak of the
loop over the directories.
-/

namespace SpillStorage

/-- At most one file in each directory. -/
def OneEach (files : List TempFile) : Prop := (files.map TempFile.directory).Nodup

namespace SpillFiles

variable {s s' : SpillFiles} {h h' : Host} {d : Disk} {directory : TempDirectory} {path : Path}
  {index size : Nat} {extent : Extent} {f : TempFile}

/-! ## Files by directory -/

/-- The file in a directory, if there is one. -/
def fileIn? (s : SpillFiles) (index : Nat) : Option TempFile :=
  s.files.find? fun f => f.directory == index

/-- The bytes claimed in a directory. -/
def sizeIn (s : SpillFiles) (index : Nat) : Nat := ((s.fileIn? index).map TempFile.size).getD 0

theorem fileIn?_eq_none_iff : s.fileIn? index = none ↔ ∀ f ∈ s.files, f.directory ≠ index := by
  simp [fileIn?]

theorem fileIn?_eq_some_iff (hone : OneEach s.files) :
    s.fileIn? index = some f ↔ f ∈ s.files ∧ f.directory = index := by
  have hfound : ∀ {g}, s.fileIn? index = some g → g ∈ s.files ∧ g.directory = index :=
    fun hg => ⟨List.mem_of_find?_eq_some hg, by simpa using List.find?_some hg⟩
  refine ⟨hfound, fun hf => ?_⟩
  cases hfile : s.fileIn? index with
  | none => exact absurd hf.2 (fileIn?_eq_none_iff.1 hfile f hf.1)
  | some g =>
    obtain ⟨hg, hdirectory⟩ := hfound hfile
    rw [List.inj_on_of_nodup_map hone hg hf.1 (hdirectory.trans hf.2.symm)]

theorem sizeIn_of_some (hfile : s.fileIn? index = some f) : s.sizeIn index = f.size := by
  rw [sizeIn, hfile, Option.map_some, Option.getD_some]

theorem sizeIn_of_none (hfile : s.fileIn? index = none) : s.sizeIn index = 0 := by
  rw [sizeIn, hfile, Option.map_none, Option.getD_none]

/-- A directory whose files are the same has the same file. -/
theorem fileIn?_congr (hone : OneEach s.files) (hone' : OneEach s'.files)
    (hsame : ∀ g : TempFile, g.directory = index → (g ∈ s'.files ↔ g ∈ s.files)) :
    s'.fileIn? index = s.fileIn? index := by
  apply Option.ext
  intro g
  rw [fileIn?_eq_some_iff hone, fileIn?_eq_some_iff hone']
  exact and_congr_left (hsame g)

/-- To replace a file touches no other. -/
theorem mem_set_iff {files : List TempFile} {place : Nat} {file grown g : TempFile}
    (hfile : files[place]? = some file) (hne : g ≠ file) (hne' : g ≠ grown) :
    g ∈ files.set place grown ↔ g ∈ files := by
  obtain ⟨hlt, -⟩ := List.getElem?_eq_some_iff.1 hfile
  simp only [List.mem_iff_getElem?, List.getElem?_set]
  apply exists_congr
  intro i
  by_cases heq : place = i
  · subst heq
    rw [if_pos rfl, if_pos hlt, hfile, Option.some.injEq, Option.some.injEq]
    exact iff_of_false hne'.symm hne.symm
  · rw [if_neg heq]

/-- A claim makes no second file in a directory. -/
theorem Claims.oneEach (hclaims : s.Claims h size s' h' extent) (hone : OneEach s.files) :
    OneEach s'.files := by
  unfold OneEach at hone ⊢
  cases hclaims with
  | @lengthened place index file registry hfile hdirectory hreserved hle =>
    rw [map_lengthened TempFile.directory (fun _ => rfl) hfile]
    exact hone
  | created hreserved hcreated hle hfirst =>
    rw [List.map_append, List.nodup_append]
    refine ⟨hone, List.nodup_singleton _, ?_⟩
    rintro a ha b hb rfl
    obtain ⟨f, hf, rfl⟩ := List.mem_map.1 ha
    exact hfirst f hf (List.mem_singleton.1 hb)

/-! ## One directory -/

/-- A directory can host `size` more bytes: its account has room, and the file that is there can get
as long, or, if there is none, one can be made that can. How long a file can get, each directory
tells on its own. -/
structure Hosts (s : SpillFiles) (h : Host) (directory : TempDirectory) (index size : Nat) :
    Prop where
  quota : h.registry.directoryUsage index + size ≤ Registry.ceiling directory.limit
  grows : ∀ f ∈ s.fileIn? index, f.size + size ≤ f.greatest
  made : s.fileIn? index = none →
    ∃ made, h.disk.createTemp directory.path (TempFile.nameOf s.stem) = .ok made ∧
      size ≤ made.2.1

instance {ε α : Type} (e : Except ε α) (p : α → Prop) [DecidablePred p] :
    Decidable (∃ a, e = .ok a ∧ p a) :=
  match e with
  | .ok a => decidable_of_iff (p a)
      ⟨fun hp => ⟨a, rfl, hp⟩, fun ⟨_, heq, hp⟩ => Except.ok.inj heq ▸ hp⟩
  | .error _ => isFalse nofun

instance : Decidable (s.Hosts h directory index size) :=
  decidable_of_iff
    (h.registry.directoryUsage index + size ≤ Registry.ceiling directory.limit ∧
      (∀ f ∈ s.fileIn? index, f.size + size ≤ f.greatest) ∧
      (s.fileIn? index = none →
        ∃ made, h.disk.createTemp directory.path (TempFile.nameOf s.stem) = .ok made ∧
          size ≤ made.2.1))
    ⟨fun ⟨hquota, hgrows, hmade⟩ => ⟨hquota, hgrows, hmade⟩,
      fun hhosts => ⟨hhosts.quota, hhosts.grows, hhosts.made⟩⟩

/-- The first directory, in the order of the settings, that can host `size` more bytes. -/
structure FirstHost (s : SpillFiles) (h : Host) (size index : Nat) (directory : TempDirectory) :
    Prop where
  configured : h.registry.settings.directories[index]? = some directory
  hosts : s.Hosts h directory index size
  first : ∀ i < index, ∀ earlier : TempDirectory,
    h.registry.settings.directories[i]? = some earlier → ¬ s.Hosts h earlier i size

/-- No directory can host `size` more bytes. -/
def NoHost (s : SpillFiles) (h : Host) (size : Nat) : Prop :=
  ∀ (index : Nat) (directory : TempDirectory),
    h.registry.settings.directories[index]? = some directory → ¬ s.Hosts h directory index size

instance : Decidable (s.FirstHost h size index directory) :=
  decidable_of_iff
    (h.registry.settings.directories[index]? = some directory ∧ s.Hosts h directory index size ∧
      ∀ entry ∈ h.registry.settings.directories.zipIdx, entry.2 < index →
        ¬ s.Hosts h entry.1 entry.2 size)
    ⟨fun ⟨hget, hhosts, hfirst⟩ => ⟨hget, hhosts, fun i hi earlier hearlier =>
        hfirst (earlier, i) (List.mem_zipIdx_iff_getElem?.2 hearlier) hi⟩,
      fun hfirst => ⟨hfirst.configured, hfirst.hosts, fun entry hentry hlt =>
        hfirst.first entry.2 hlt entry.1 (List.mem_zipIdx_iff_getElem?.1 hentry)⟩⟩

instance : Decidable (s.NoHost h size) :=
  decidable_of_iff
    (∀ entry ∈ h.registry.settings.directories.zipIdx, ¬ s.Hosts h entry.1 entry.2 size)
    ⟨fun hnone index directory hget =>
        hnone (directory, index) (List.mem_zipIdx_iff_getElem?.2 hget),
      fun hnone entry hentry => hnone entry.2 entry.1 (List.mem_zipIdx_iff_getElem?.1 hentry)⟩

/-- A directory hosts `size` more bytes: at the end of its file, which is the one that it had, or a
new one. Only this file and the account of the directory change. -/
structure Hosted (s : SpillFiles) (h : Host) (directory : TempDirectory) (index size : Nat)
    (s' : SpillFiles) (h' : Host) (extent : Extent) : Prop where
  offset : extent.offset = s.sizeIn index
  file : ∃ f content, s'.files[extent.file]? = some f ∧ s'.fileIn? index = some f ∧
    f.size = s.sizeIn index + size ∧
    (∀ old, s.fileIn? index = some old → f = { old with size := old.size + size }) ∧
    (s.fileIn? index = none → f.path = directory.path.child (TempFile.nameOf s.stem)) ∧
    h'.disk.content? f.handle = some content ∧ content.size = f.size ∧
    ∀ handle, handle ≠ f.handle → h'.disk.content? handle = h.disk.content? handle
  others : ∀ other, other ≠ index → s'.fileIn? other = s.fileIn? other
  usage : ∀ other, h'.registry.directoryUsage other =
    h.registry.directoryUsage other + if other = index then size else 0
  cache : h'.registry.cacheUsage = h.registry.cacheUsage

/-- Why a directory refuses: its account has no room, or its file cannot grow, for the reason that
the file system gives. -/
def Refuses (s : SpillFiles) (h : Host) (directory : TempDirectory) (index size : Nat)
    (refusal : Refusal) : Prop :=
  if h.registry.directoryUsage index + size ≤ Registry.ceiling directory.limit then
    ∃ fault, refusal = .growth fault ∧
      (s.growIn h.disk directory.path index size).2 = .error fault
  else refusal = .quota directory.path (directory.limit.getD Offset.greatest)

theorem extend_of_le {delta : Nat} (hle : f.size + delta ≤ f.greatest) :
    f.extend d delta = .ok (f.size, { f with size := f.size + delta },
      d.setContent f.handle ((d.content f.handle).resize (f.size + delta))) := by
  have hlength := f.greatest.isLt
  have hbound : Disk.lengthBound < Offset.bound := by decide
  have hsum : Offset.sum? f.size delta = some (f.size + delta) :=
    Offset.sum?_eq_some_iff.2 ⟨rfl, by omega⟩
  unfold TempFile.extend
  simp only [hsum]
  rw [if_neg (by omega), if_neg (by omega)]

/-- With room in its file, or for one, a directory does not refuse. -/
theorem growIn_of_room (hgrows : ∀ f ∈ s.fileIn? index, f.size + size ≤ f.greatest)
    (hmade : s.fileIn? index = none →
      ∃ made, d.createTemp path (TempFile.nameOf s.stem) = .ok made ∧ size ≤ made.2.1) :
    ∃ state extent, s.growIn d path index size = (state, .ok extent) := by
  unfold growIn
  cases hplace : s.files.findIdx? fun f => f.directory == index with
  | none =>
    have hfile : s.fileIn? index = none := by
      rw [fileIn?_eq_none_iff]
      simpa using List.findIdx?_eq_none_iff.1 hplace
    obtain ⟨⟨handle, greatest, disk⟩, hcreated, hle⟩ := hmade hfile
    have hroom : 0 + size ≤ greatest := by
      rw [Nat.zero_add]
      exact hle
    have hextend := extend_of_le (d := disk)
      (f := ⟨handle, path.child (TempFile.nameOf s.stem), index, greatest, 0⟩) hroom
    simp only [growNew, TempFile.create, hcreated, hextend]
    exact ⟨_, _, rfl⟩
  | some place =>
    obtain ⟨hlt, hfound, hbefore⟩ := List.findIdx?_eq_some_iff_getElem.1 hplace
    have hget : s.files[place]? = some s.files[place] := List.getElem?_eq_getElem hlt
    have hfile : s.fileIn? index = some s.files[place] :=
      List.find?_eq_some_iff_getElem.2 ⟨hfound, place, hlt, rfl, fun j hj => by
        simpa using hbefore j hj⟩
    simp only [hget, growFile, extend_of_le (hgrows _ hfile)]
    exact ⟨_, _, rfl⟩

theorem claimIn_of_hosts (hdirectory : h.registry.settings.directories[index]? = some directory)
    (hhosts : s.Hosts h directory index size) :
    ∃ state extent, s.claimIn h directory index size = (state, .ok extent) := by
  obtain ⟨⟨files, disk⟩, extent, hgrow⟩ := growIn_of_room hhosts.grows hhosts.made
  unfold claimIn
  rw [Registry.reserveDirectory?_eq hdirectory, if_pos hhosts.quota]
  simp only [hgrow]
  exact ⟨_, _, rfl⟩

/-- The file that a directory has got longer. -/
theorem hosted_lengthened (hone : OneEach s.files) {others : Nat → Prop}
    (hhoused : Housed others s.files h.disk) (haccount : index < h.registry.directoryUsages.length)
    {place : Nat} {file : TempFile} (hfile : s.files[place]? = some file)
    (hdirectory : file.directory = index)
    (hreserved : h.registry.reserveDirectory? index size = some (h.registry.charge index size))
    (hle : file.size + size ≤ file.greatest) :
    s.Hosted h directory index size
      { s with files := s.files.set place { file with size := file.size + size } }
      { h with
        registry := h.registry.charge index size
        disk := lengthened h.disk file size } ⟨place, file.size⟩ := by
  have hclaims : s.Claims h size _ _ _ := .lengthened hfile hdirectory hreserved hle
  have hone' := hclaims.oneEach hone
  have hold : s.fileIn? index = some file :=
    (fileIn?_eq_some_iff hone).2 ⟨List.mem_of_getElem? hfile, hdirectory⟩
  obtain ⟨hlt, hget⟩ := List.getElem?_eq_some_iff.1 hfile
  have hgrown : (s.files.set place { file with size := file.size + size })[place]? =
      some { file with size := file.size + size } := by simp [hlt]
  have hbacked := (hclaims.claimed hhoused).housed.backed _ (List.mem_of_getElem? hgrown)
  obtain ⟨content, hcontent⟩ := Option.isSome_iff_exists.1 hbacked.exists_content
  refine ⟨(sizeIn_of_some hold).symm, ⟨{ file with size := file.size + size }, content, hgrown,
    (fileIn?_eq_some_iff hone').2 ⟨List.mem_of_getElem? hgrown, hdirectory⟩, ?_, ?_, ?_, hcontent,
    ?_, ?_⟩, ?_, Registry.directoryUsage_charge haccount size, rfl⟩
  · rw [sizeIn_of_some hold]
  · intro old hsome
    rw [hold] at hsome
    rw [Option.some.inj hsome]
  · intro hnone
    rw [hold] at hnone
    cases hnone
  · rw [← Disk.content_of_content? hcontent]
    exact hbacked.size
  · intro handle hne
    exact content?_lengthened size hne
  · -- the files of other directories are those that were there
    intro other hother
    refine fileIn?_congr hone hone' fun g hg => mem_set_iff hfile ?_ ?_
    · rintro rfl
      exact hother (hg.symm.trans hdirectory)
    · rintro rfl
      exact hother (hg.symm.trans hdirectory)

/-- The file that a directory has got. -/
theorem hosted_created (hone : OneEach s.files)
    (haccount : index < h.registry.directoryUsages.length) {handle : Nat} {greatest : FileLength}
    {disk : Disk}
    (hreserved : h.registry.reserveDirectory? index size = some (h.registry.charge index size))
    (hcreated :
      h.disk.createTemp directory.path (TempFile.nameOf s.stem) = .ok (handle, greatest, disk))
    (hle : size ≤ greatest) (hfirst : ∀ f ∈ s.files, f.directory ≠ index) :
    s.Hosted h directory index size
      { s with files := s.files ++
          [⟨handle, directory.path.child (TempFile.nameOf s.stem), index, greatest, size⟩] }
      { h with
        registry := h.registry.charge index size
        disk := disk.setContent handle (Buffer.zeros size) } ⟨s.files.length, 0⟩ := by
  have hclaims : s.Claims h size _ _ _ := .created hreserved hcreated hle hfirst
  have hone' := hclaims.oneEach hone
  have hnone : s.fileIn? index = none := fileIn?_eq_none_iff.2 hfirst
  have hcontent := content?_created hcreated size
  have hself := hcontent handle
  rw [if_pos rfl] at hself
  refine ⟨(sizeIn_of_none hnone).symm, ⟨_, Buffer.zeros size, List.getElem?_concat_length,
    (fileIn?_eq_some_iff hone').2 ⟨List.mem_concat_self, rfl⟩, ?_, ?_, fun _ => rfl, hself, rfl,
    ?_⟩, ?_, Registry.directoryUsage_charge haccount size, rfl⟩
  · rw [sizeIn_of_none hnone, Nat.zero_add]
  · intro old hsome
    rw [hnone] at hsome
    cases hsome
  · intro other hne
    rw [hcontent, if_neg hne]
  · intro other hother
    refine fileIn?_congr hone hone' fun g hg => ?_
    rw [List.mem_append, List.mem_singleton, or_iff_left]
    rintro rfl
    exact hother hg.symm

section Host

variable (hone : OneEach s.files) {others : Nat → Prop} (hhoused : Housed others s.files h.disk)
  (haccounts : h.registry.directoryUsages.length = h.registry.settings.directories.length)

include hone hhoused haccounts

/-- What it takes for a directory to meet a claim, and what it does. -/
theorem claimIn_ok
    (hdirectory : h.registry.settings.directories[index]? = some directory)
    (hclaim : s.claimIn h directory index size = ((s', h'), .ok extent)) :
    s.Hosts h directory index size ∧ s.Hosted h directory index size s' h' extent := by
  have haccount : index < h.registry.directoryUsages.length := by
    rw [haccounts]
    exact (List.getElem?_eq_some_iff.1 hdirectory).1
  have hreserve := Registry.reserveDirectory?_eq hdirectory size
  unfold claimIn at hclaim
  by_cases hquota :
      h.registry.directoryUsage index + size ≤ Registry.ceiling directory.limit
  · rw [if_pos hquota] at hreserve
    rw [hreserve] at hclaim
    rcases s.growIn_cases h.disk directory.path index size with
      ⟨fault, heq⟩ | ⟨place, file, hfile, hin, hle, heq⟩ |
      ⟨handle, greatest, disk, hcreated, hle, hfirst, heq⟩
    · simp only [heq] at hclaim
      cases hclaim
    · simp only [heq] at hclaim
      cases hclaim
      have hold : s.fileIn? index = some file :=
        (fileIn?_eq_some_iff hone).2 ⟨List.mem_of_getElem? hfile, hin⟩
      refine ⟨⟨hquota, ?_, ?_⟩,
        hosted_lengthened hone hhoused haccount hfile hin hreserve hle⟩
      · intro f hf
        rw [hold] at hf
        cases hf
        exact hle
      · intro hnone
        rw [hold] at hnone
        cases hnone
    · simp only [heq] at hclaim
      cases hclaim
      refine ⟨⟨hquota, ?_, fun _ => ⟨_, hcreated, hle⟩⟩,
        hosted_created hone haccount hreserve hcreated hle hfirst⟩
      intro f hf
      rw [fileIn?_eq_none_iff.2 hfirst] at hf
      cases hf
  · rw [if_neg hquota] at hreserve
    rw [hreserve] at hclaim
    cases hclaim

/-- A directory that cannot host the bytes says why, and nothing changes. -/
theorem claimIn_refused
    (hdirectory : h.registry.settings.directories[index]? = some directory)
    (hhosts : ¬ s.Hosts h directory index size) :
    ∃ refusal, s.claimIn h directory index size = ((s, h), .error refusal) ∧
      s.Refuses h directory index size refusal := by
  rcases s.claimIn_cases h directory index size with
    ⟨refusal, hclaim⟩ | ⟨s', h', extent, hclaim, -⟩
  · refine ⟨refusal, hclaim, ?_⟩
    have hreserve := Registry.reserveDirectory?_eq hdirectory size
    have hanswer := congrArg Prod.snd hclaim
    unfold Refuses
    unfold claimIn at hanswer
    rw [hreserve] at hanswer
    by_cases hquota :
        h.registry.directoryUsage index + size ≤ Registry.ceiling directory.limit
    · rw [if_pos hquota] at hanswer ⊢
      cases hgrow : s.growIn h.disk directory.path index size with
      | mk state answer =>
      cases answer with
      | ok extent =>
        simp only [hgrow] at hanswer
        cases hanswer
      | error fault =>
        simp only [hgrow] at hanswer
        cases hanswer
        exact ⟨fault, rfl, rfl⟩
    · rw [if_neg hquota] at hanswer ⊢
      cases hanswer
      rfl
  · exact absurd (claimIn_ok hone hhoused haccounts hdirectory hclaim).1 hhosts

/-! ## All directories -/

/-- If none of the directories that are asked can host the bytes, each of them says why, in their
order. -/
theorem claimFrom_refused {directories : List TempDirectory} (refusals : List Refusal) (first : Nat)
    (hasked : ∀ (i : Nat) (directory : TempDirectory), directories[i]? = some directory →
      h.registry.settings.directories[first + i]? = some directory)
    (hnone : ∀ (i : Nat) (directory : TempDirectory), directories[i]? = some directory →
      ¬ s.Hosts h directory (first + i) size) :
    ∃ rest, claimFrom size s h refusals first directories =
        .fail (s, h) (.outOfTempSpace size (refusals.reverse ++ rest)) ∧
      rest.length = directories.length ∧
      ∀ (i : Nat) (directory : TempDirectory), directories[i]? = some directory →
        ∃ refusal, rest[i]? = some refusal ∧ s.Refuses h directory (first + i) size refusal := by
  induction directories generalizing refusals first with
  | nil => exact ⟨[], by rw [List.append_nil]; rfl, rfl, fun i directory hget => by cases hget⟩
  | cons directory later ih =>
    obtain ⟨refusal, hclaim, hrefuses⟩ :=
      claimIn_refused hone hhoused haccounts (hasked 0 directory rfl) (hnone 0 directory rfl)
    -- the directories behind it are counted from the next one on
    have hnext : ∀ i, first + 1 + i = first + (i + 1) := fun i => by omega
    obtain ⟨rest, heq, hlength, hrest⟩ := ih (refusal :: refusals) (first + 1)
      (fun i d hget => hnext i ▸ hasked (i + 1) d hget)
      (fun i d hget => hnext i ▸ hnone (i + 1) d hget)
    refine ⟨refusal :: rest, ?_, congrArg Nat.succ hlength, ?_⟩
    · rw [claimFrom]
      simp only [Nat.add_zero] at hclaim
      simp only [hclaim, heq, List.reverse_cons, List.append_assoc, List.cons_append,
        List.nil_append]
    · intro i d hget
      cases i with
      | zero =>
        cases hget
        exact ⟨refusal, rfl, hrefuses⟩
      | succ i =>
        rw [← hnext i]
        exact hrest i d hget

/-- The first directory that can host the bytes does. -/
theorem claimFrom_first {directories : List TempDirectory} (refusals : List Refusal) (first : Nat)
    (hasked : ∀ (i : Nat) (directory : TempDirectory), directories[i]? = some directory →
      h.registry.settings.directories[first + i]? = some directory) {i : Nat}
    (hdirectory : directories[i]? = some directory)
    (hhosts : s.Hosts h directory (first + i) size)
    (hbefore : ∀ j < i, ∀ earlier, directories[j]? = some earlier →
      ¬ s.Hosts h earlier (first + j) size) :
    ∃ s' h' extent, claimFrom size s h refusals first directories = .ok (s', h') extent ∧
      s.Hosted h directory (first + i) size s' h' extent := by
  induction directories generalizing refusals first i with
  | nil => cases hdirectory
  | cons head later ih =>
    cases i with
    | zero =>
      cases hdirectory
      have hhead := hasked 0 directory rfl
      obtain ⟨⟨s', h'⟩, extent, hclaim⟩ := claimIn_of_hosts hhead hhosts
      refine ⟨s', h', extent, ?_, (claimIn_ok hone hhoused haccounts hhead hclaim).2⟩
      rw [claimFrom]
      simp only [Nat.add_zero] at hclaim
      simp only [hclaim]
    | succ i =>
      obtain ⟨refusal, hclaim, -⟩ := claimIn_refused hone hhoused haccounts (hasked 0 head rfl)
        (hbefore 0 (Nat.succ_pos i) head rfl)
      have hnext : ∀ i, first + 1 + i = first + (i + 1) := fun i => by omega
      obtain ⟨s', h', extent, heq, hhosted⟩ := ih (refusal :: refusals) (first + 1)
        (fun j d hget => hnext j ▸ hasked (j + 1) d hget) hdirectory
        (hnext i ▸ hhosts) fun j hj d hget => hnext j ▸ hbefore (j + 1) (Nat.succ_lt_succ hj) d hget
      refine ⟨s', h', extent, ?_, hnext i ▸ hhosted⟩
      rw [claimFrom]
      simp only [Nat.add_zero] at hclaim
      simp only [hclaim, heq]

theorem claim_refused (hnone : s.NoHost h size) :
    ∃ refusals, s.claim h size = .fail (s, h) (.outOfTempSpace size refusals) ∧
      refusals.length = h.registry.settings.directories.length ∧
      ∀ (index : Nat) (directory : TempDirectory),
        h.registry.settings.directories[index]? = some directory →
          ∃ refusal, refusals[index]? = some refusal ∧
            s.Refuses h directory index size refusal := by
  have hrefused := claimFrom_refused hone hhoused haccounts [] 0
    (fun i d hget => (Nat.zero_add i).symm ▸ hget) fun i d hget => by
      rw [Nat.zero_add]
      exact hnone i d hget
  unfold claim
  simpa only [Nat.zero_add, List.reverse_nil, List.nil_append] using hrefused

theorem claim_first {directory : TempDirectory} (hfirst : s.FirstHost h size index directory) :
    ∃ s' h' extent, s.claim h size = .ok (s', h') extent ∧
      s.Hosted h directory index size s' h' extent := by
  have hclaim := claimFrom_first hone hhoused haccounts [] 0
    (fun i d hget => (Nat.zero_add i).symm ▸ hget) hfirst.configured
    ((Nat.zero_add index).symm ▸ hfirst.hosts) fun i hi d hget => by
      rw [Nat.zero_add]
      exact hfirst.first i hi d hget
  unfold claim
  simpa only [Nat.zero_add] using hclaim

end Host

end SpillFiles

/-! ## Spaces -/

namespace Space

variable {s : Space} {h : Host} {size amount : Nat}

/-- There is room for `amount` bytes in memory: under the ceiling, and in the heap. -/
structure RoomInMemory (h : Host) (amount : Nat) : Prop where
  ceiling : h.registry.cacheUsage + amount ≤ Registry.ceiling (some h.registry.settings.cacheLimit)
  heap : amount ≤ h.heapCapacity

instance : Decidable (RoomInMemory h amount) :=
  decidable_of_iff
    (h.registry.cacheUsage + amount ≤ Registry.ceiling (some h.registry.settings.cacheLimit) ∧
      amount ≤ h.heapCapacity)
    ⟨fun ⟨hceiling, hheap⟩ => ⟨hceiling, hheap⟩, fun hroom => ⟨hroom.ceiling, hroom.heap⟩⟩

/-- Where there is room in memory, one memory block is appended and paid for. -/
theorem extend_in_memory (hlacks : s.Lacks h size amount) (hroom : RoomInMemory h amount) :
    s.extend h size = .ok
      ({ s with
          chain := ⟨s.chain.blocks ++
            [⟨s.chain.size, amount, .memory (Buffer.zeros amount) false⟩], s.chain.size + amount⟩
          cacheUsage := s.cacheUsage + amount
          logicalSize := s.logicalSize + size },
        { h with
          registry := { h.registry with cacheUsage := h.registry.cacheUsage + amount } }) () := by
  have hpush : s.chain.pushMemory (Buffer.zeros amount) false = ⟨s.chain.blocks ++
      [⟨s.chain.size, amount, .memory (Buffer.zeros amount) false⟩], s.chain.size + amount⟩ :=
    Chain.pushMemory_of_pos hlacks.amount_pos false
  rw [hlacks.extend_eq, grow, growInMemory, Registry.reserveCache?_eq, if_pos hroom.ceiling]
  simp only [if_pos hroom.heap, Outcome.andThen_ok, hpush]

/-- Where there is none, nothing of the attempt is left. -/
theorem growInMemory_refused (s : Space) (hroom : ¬ RoomInMemory h amount) :
    s.growInMemory h amount = ((s, h), false) := by
  unfold growInMemory
  cases hreserved : h.registry.reserveCache? amount with
  | none => rfl
  | some registry =>
    have hceiling := Registry.reserveCache?_eq h.registry amount
    rw [hreserved] at hceiling
    have hle : h.registry.cacheUsage + amount ≤
        Registry.ceiling (some h.registry.settings.cacheLimit) := by
      by_contra hgt
      rw [if_neg hgt] at hceiling
      cases hceiling
    simp only [if_neg fun hheap => hroom ⟨hle, hheap⟩, Host.releaseCache,
      Registry.releaseCache_reserve hreserved]

theorem Lacks.extend_on_disk_eq (hlacks : s.Lacks h size amount) (hroom : ¬ RoomInMemory h amount) :
    s.extend h size = (s.growOnDisk h amount).andThen fun (s', h') () =>
      .ok ({ s' with logicalSize := s.logicalSize + size }, h') () := by
  rw [hlacks.extend_eq, grow, growInMemory_refused s hroom]

/-- Then the bytes are those that a claim gave. -/
theorem extend_on_disk {files : SpillFiles} {h' : Host} {extent : Extent}
    (hlacks : s.Lacks h size amount) (hroom : ¬ RoomInMemory h amount)
    (hclaim : s.files.claim h amount = .ok (files, h') extent) :
    s.extend h size = .ok
      ({ s with
          files := files
          chain := (s.chain.pushFile extent.file extent.offset amount).2
          logicalSize := s.logicalSize + size }, h') () := by
  rw [hlacks.extend_on_disk_eq hroom]
  simp only [growOnDisk, hclaim, Outcome.ok, Outcome.andThen]

theorem extend_refused {f : Failure} (hlacks : s.Lacks h size amount)
    (hroom : ¬ RoomInMemory h amount) (hclaim : s.files.claim h amount = .fail (s.files, h) f) :
    s.extend h size = .fail (s, h) f := by
  rw [hlacks.extend_on_disk_eq hroom]
  simp only [growOnDisk, hclaim, Outcome.fail, Outcome.andThen]

/-- What the pool does not have is allocated at the end of the space. -/
theorem allocate_eq_extend (h : Host) (hsize : 0 < size) (hpool : s.free.allocate size = none) :
    s.allocate h size = (s.extend h size).map fun () => s.logicalSize := by
  unfold allocate
  rw [if_neg (Nat.pos_iff_ne_zero.1 hsize)]
  simp only [hpool]
  cases hextend : s.extend h size with
  | mk state answer =>
  obtain ⟨s', h'⟩ := state
  cases answer with
  | error f => rfl
  | ok a =>
    obtain ⟨-, hlength⟩ := extend_ok (hextend : s.extend h size = .ok (s', h') ())
    simp only [Outcome.andThen, Outcome.map, hlength, Nat.add_sub_cancel]

end Space

end SpillStorage
