import SpillStorage.SpillFiles
import SpillStorage.Proofs.Disk
import SpillStorage.Proofs.Registry

/-!
Claims of spill files.

What is proved:
  1. `claim_ok`: a claim that is met lengthens one file of one directory, an old or a new one, and
     the extent starts where that file ended. A file is made only where there was none.
  2. `claim_error`: a claim that no directory meets leaves files, registry and disk as they were.
-/

namespace SpillStorage

/-- The bytes claimed in the file at a place; none where there is no file. -/
def sizeAt (files : List TempFile) (place : Nat) : Nat := ((files[place]?).map TempFile.size).getD 0

namespace TempFile

theorem extend_ok {f grown : TempFile} {d d' : Disk} {delta offset : Nat}
    (h : f.extend d delta = .ok (offset, grown, d')) :
    offset = f.size ∧ grown = { f with size := f.size + delta } ∧
      d' = d.setContent f.handle ((d.content f.handle).resize (f.size + delta)) ∧
      f.size + delta ≤ f.greatest := by
  unfold extend at h
  split at h
  · cases h
  · next size hsum =>
    obtain ⟨rfl, -⟩ := Offset.sum?_eq_some_iff.1 hsum
    split at h
    · cases h
    · split at h
      · cases h
      · next hle =>
        cases h
        exact ⟨rfl, rfl, rfl, Nat.not_lt.1 hle⟩

end TempFile

namespace SpillFiles

/-- A claim that is met: `size` bytes at the end of a file, paid by the account of its directory. -/
inductive Claims (s : SpillFiles) (h : Host) (size : Nat) : SpillFiles → Host → Extent → Prop
  /-- The directory has a file already. -/
  | lengthened {place index : Nat} {file : TempFile} {registry : Registry}
      (hfile : s.files[place]? = some file) (hdirectory : file.directory = index)
      (hreserved : h.registry.reserveDirectory? index size = some registry)
      (hle : file.size + size ≤ file.greatest) :
      Claims s h size
        { s with files := s.files.set place { file with size := file.size + size } }
        { h with
          registry := registry
          disk := h.disk.setContent file.handle
            ((h.disk.content file.handle).resize (file.size + size)) }
        ⟨place, file.size⟩
  /-- The directory gets its first file. -/
  | created {index handle : Nat} {path : Path} {greatest : FileLength} {registry : Registry}
      {disk : Disk}
      (hreserved : h.registry.reserveDirectory? index size = some registry)
      (hcreated : h.disk.createTemp path (TempFile.nameOf s.stem) = .ok (handle, greatest, disk))
      (hle : size ≤ greatest)
      (hfirst : ∀ f ∈ s.files, f.directory ≠ index) :
      Claims s h size
        { s with files :=
            s.files ++ [⟨handle, path.child (TempFile.nameOf s.stem), index, greatest, size⟩] }
        { h with registry := registry, disk := disk.setContent handle (Buffer.zeros size) }
        ⟨s.files.length, 0⟩

theorem resize_zeros (size : Nat) : (Buffer.zeros 0).resize size = Buffer.zeros size := by
  simp [Buffer.resize, Buffer.zeros]

/-- A file is made and claimed, or nothing changes. -/
theorem growNew_cases (s : SpillFiles) (d : Disk) (path : Path) (index size : Nat) :
    (∃ fault, s.growNew d path index size = ((s, d), .error fault)) ∨
    ∃ handle greatest disk,
      d.createTemp path (TempFile.nameOf s.stem) = .ok (handle, greatest, disk) ∧
      size ≤ greatest ∧ s.growNew d path index size =
        (({ s with files :=
              s.files ++ [⟨handle, path.child (TempFile.nameOf s.stem), index, greatest, size⟩] },
          disk.setContent handle (Buffer.zeros size)), .ok ⟨s.files.length, 0⟩) := by
  unfold growNew TempFile.create
  cases hcreate : d.createTemp path (TempFile.nameOf s.stem) with
  | error cause => exact .inl ⟨_, rfl⟩
  | ok made =>
    obtain ⟨handle, greatest, disk⟩ := made
    obtain ⟨-, hdrop, hcontent⟩ := Disk.createTemp_ok hcreate
    have hzero : disk.content handle = Buffer.zeros 0 :=
      Disk.content_of_content? (by rw [hcontent, if_pos rfl])
    simp only
    cases hextend : TempFile.extend
        ⟨handle, path.child (TempFile.nameOf s.stem), index, greatest, 0⟩ disk size with
    | error fault => exact .inl ⟨fault, by simp only [hdrop]⟩
    | ok grown =>
      obtain ⟨offset, file, disk'⟩ := grown
      obtain ⟨rfl, rfl, rfl, hle⟩ := TempFile.extend_ok hextend
      refine .inr ⟨handle, greatest, disk, rfl, by simpa using hle, ?_⟩
      simp only [Nat.zero_add, hzero, resize_zeros]

/-- The file in one directory grows, or nothing changes. -/
theorem growIn_cases (s : SpillFiles) (d : Disk) (path : Path) (index size : Nat) :
    (∃ fault, s.growIn d path index size = ((s, d), .error fault)) ∨
    (∃ place file, s.files[place]? = some file ∧ file.directory = index ∧
      file.size + size ≤ file.greatest ∧ s.growIn d path index size =
        (({ s with files := s.files.set place { file with size := file.size + size } },
          d.setContent file.handle ((d.content file.handle).resize (file.size + size))),
          .ok ⟨place, file.size⟩)) ∨
    ∃ handle greatest disk,
      d.createTemp path (TempFile.nameOf s.stem) = .ok (handle, greatest, disk) ∧
      size ≤ greatest ∧ (∀ f ∈ s.files, f.directory ≠ index) ∧
      s.growIn d path index size =
        (({ s with files :=
              s.files ++ [⟨handle, path.child (TempFile.nameOf s.stem), index, greatest, size⟩] },
          disk.setContent handle (Buffer.zeros size)), .ok ⟨s.files.length, 0⟩) := by
  cases hplace : s.files.findIdx? fun f => f.directory == index with
  | none =>
    have hfirst : ∀ f ∈ s.files, f.directory ≠ index := by
      simpa using List.findIdx?_eq_none_iff.1 hplace
    simp only [growIn, hplace]
    rcases s.growNew_cases d path index size with
      hfail | ⟨handle, greatest, disk, hcreated, hle, heq⟩
    · exact .inl hfail
    · exact .inr (.inr ⟨handle, greatest, disk, hcreated, hle, hfirst, heq⟩)
  | some place =>
    obtain ⟨hlt, hfound, -⟩ := List.findIdx?_eq_some_iff_getElem.1 hplace
    have hfile : s.files[place]? = some s.files[place] := List.getElem?_eq_getElem hlt
    have hdirectory : s.files[place].directory = index := by simpa using hfound
    simp only [growIn, hplace, hfile, growFile]
    cases hextend : s.files[place].extend d size with
    | error fault => exact .inl ⟨fault, rfl⟩
    | ok grown =>
      obtain ⟨offset, file', disk'⟩ := grown
      obtain ⟨rfl, rfl, rfl, hle⟩ := TempFile.extend_ok hextend
      exact .inr (.inl ⟨place, _, hfile, hdirectory, hle, rfl⟩)

/-- A directory meets the claim, or refuses and gets back what it had reserved. -/
theorem claimIn_cases (s : SpillFiles) (h : Host) (directory : TempDirectory) (index size : Nat) :
    (∃ refusal, s.claimIn h directory index size = ((s, h), .error refusal)) ∨
    ∃ s' h' extent, s.claimIn h directory index size = ((s', h'), .ok extent) ∧
      Claims s h size s' h' extent := by
  unfold claimIn
  cases hreserved : h.registry.reserveDirectory? index size with
  | none => exact .inl ⟨_, rfl⟩
  | some registry =>
    rcases s.growIn_cases h.disk directory.path index size with
      ⟨fault, heq⟩ | ⟨place, file, hfile, hdirectory, hle, heq⟩ |
      ⟨handle, greatest, disk, hcreated, hle, hfirst, heq⟩
    · refine .inl ⟨.growth fault, ?_⟩
      simp only [heq, Host.releaseDirectory, Registry.releaseDirectory_reserve hreserved]
    · exact .inr ⟨_, _, _, by simp only [heq], .lengthened hfile hdirectory hreserved hle⟩
    · exact .inr ⟨_, _, _, by simp only [heq], .created hreserved hcreated hle hfirst⟩

theorem claimFrom_cases (size : Nat) (s : SpillFiles) (h : Host) (refusals : List Refusal)
    (index : Nat) (directories : List TempDirectory) :
    (∃ f, claimFrom size s h refusals index directories = .fail (s, h) f) ∨
    ∃ s' h' extent, claimFrom size s h refusals index directories = .ok (s', h') extent ∧
      Claims s h size s' h' extent := by
  induction directories generalizing refusals index with
  | nil => exact .inl ⟨_, rfl⟩
  | cons directory rest ih =>
    unfold claimFrom
    rcases s.claimIn_cases h directory index size with
      ⟨refusal, heq⟩ | ⟨s', h', extent, heq, hclaims⟩
    · rw [heq]
      exact ih _ _
    · rw [heq]
      exact .inr ⟨s', h', extent, rfl, hclaims⟩

theorem claim_ok {s : SpillFiles} {h : Host} {size : Nat} {extent : Extent}
    (hclaim : (s.claim h size).answer = .ok extent) :
    Claims s h size (s.claim h size).state.1 (s.claim h size).state.2 extent := by
  unfold claim at hclaim ⊢
  rcases claimFrom_cases size s h [] 0 h.registry.settings.directories with
    ⟨f, heq⟩ | ⟨s', h', extent', heq, hclaims⟩
  · rw [heq] at hclaim
    cases hclaim
  · rw [heq] at hclaim ⊢
    cases hclaim
    exact hclaims

theorem claim_error {s : SpillFiles} {h : Host} {size : Nat} {f : Failure}
    (hclaim : (s.claim h size).answer = .error f) : (s.claim h size).state = (s, h) := by
  unfold claim at hclaim ⊢
  rcases claimFrom_cases size s h [] 0 h.registry.settings.directories with
    ⟨f', heq⟩ | ⟨s', h', extent', heq, -⟩
  · rw [heq]
    rfl
  · rw [heq] at hclaim
    cases hclaim

/-- A claim is refused for want of room only. -/
theorem claimFrom_failure {size : Nat} {s : SpillFiles} {h : Host} {refusals : List Refusal}
    {index : Nat} {directories : List TempDirectory} {f : Failure}
    (hclaim : (claimFrom size s h refusals index directories).answer = .error f) :
    ∃ reasons, f = .outOfTempSpace size reasons := by
  induction directories generalizing refusals index with
  | nil =>
    cases hclaim
    exact ⟨_, rfl⟩
  | cons directory rest ih =>
    unfold claimFrom at hclaim
    rcases s.claimIn_cases h directory index size with
      ⟨refusal, heq⟩ | ⟨s', h', extent, heq, -⟩
    · rw [heq] at hclaim
      exact ih hclaim
    · rw [heq] at hclaim
      cases hclaim

/-! ## What a met claim does to the sizes -/

theorem sizeAt_concat (files : List TempFile) (f : TempFile) (place : Nat) :
    sizeAt (files ++ [f]) place = if place = files.length then f.size else sizeAt files place := by
  unfold sizeAt
  rcases Nat.lt_trichotomy place files.length with hlt | heq | hgt
  · rw [List.getElem?_append_left hlt, if_neg (by omega)]
  · rw [if_pos heq, List.getElem?_append_right (by omega), heq, Nat.sub_self]
    rfl
  · rw [if_neg (by omega), List.getElem?_eq_none (by simp; omega), List.getElem?_eq_none (by omega)]

theorem Claims.sizeAt {s s' : SpillFiles} {h h' : Host} {size : Nat} {extent : Extent}
    (hclaims : Claims s h size s' h' extent) :
    extent.offset = SpillStorage.sizeAt s.files extent.file ∧ ∀ place,
      SpillStorage.sizeAt s'.files place =
        if place = extent.file then SpillStorage.sizeAt s.files extent.file + size
        else SpillStorage.sizeAt s.files place := by
  cases hclaims with
  | @lengthened position index file registry hfile hdirectory hreserved hle =>
    obtain ⟨hlt, rfl⟩ := List.getElem?_eq_some_iff.1 hfile
    refine ⟨by simp [SpillStorage.sizeAt, hlt], ?_⟩
    intro place
    by_cases heq : place = position
    · subst heq
      simp [SpillStorage.sizeAt, hlt]
    · have hne : position ≠ place := fun h => heq h.symm
      simp [SpillStorage.sizeAt, heq, hne]
  | created hreserved hcreated hle =>
    have hnone : SpillStorage.sizeAt s.files s.files.length = 0 := by simp [SpillStorage.sizeAt]
    refine ⟨hnone.symm, ?_⟩
    intro place
    rw [sizeAt_concat, hnone, Nat.zero_add]

/-- No file is given up, and the extent lies in one that there is. -/
theorem Claims.length {s s' : SpillFiles} {h h' : Host} {size : Nat} {extent : Extent}
    (hclaims : Claims s h size s' h' extent) :
    s.files.length ≤ s'.files.length ∧ extent.file < s'.files.length := by
  cases hclaims with
  | lengthened hfile hdirectory hreserved hle =>
    obtain ⟨hlt, -⟩ := List.getElem?_eq_some_iff.1 hfile
    simp only [List.length_set]
    exact ⟨Nat.le_refl _, hlt⟩
  | created hreserved hcreated hle =>
    simp only [List.length_append, List.length_singleton]
    exact ⟨Nat.le_succ _, Nat.lt_succ_self _⟩

theorem total_set {files : List TempFile} {place : Nat} {file grown : TempFile}
    (hfile : files[place]? = some file) {size : Nat} (hsize : grown.size = file.size + size) :
    Offset.total ((files.set place grown).map TempFile.size) =
      Offset.total (files.map TempFile.size) + size := by
  induction files generalizing place with
  | nil => cases hfile
  | cons f rest ih =>
    cases place with
    | zero =>
      cases hfile
      simp only [List.set_cons_zero, List.map_cons, Offset.total]
      omega
    | succ place =>
      have hrest : rest[place]? = some file := hfile
      have := ih hrest
      simp only [List.set_cons_succ, List.map_cons, Offset.total]
      omega

theorem Claims.totalSize {s s' : SpillFiles} {h h' : Host} {size : Nat} {extent : Extent}
    (hclaims : Claims s h size s' h' extent) : s'.totalSize = s.totalSize + size := by
  cases hclaims with
  | lengthened hfile hdirectory hreserved hle => exact total_set hfile rfl
  | created hreserved hcreated hle =>
    simp [SpillFiles.totalSize, Offset.total_append, Offset.total]

end SpillFiles

end SpillStorage
