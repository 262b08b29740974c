import SpillStorage.Host
import SpillStorage.TempFile

/-!
The spill files of one space: at most one temp file in each configured directory. `claim` looks
for room directory by directory, in the order of the settings. A directory that cannot host the
bytes gets its reservation back and leaves a refusal; when all have refused, the refusals are the
answer.

Correspondence:
  `FileExtent`, `TempFileManager` ↔ `Extent`, `SpillFiles`
  `TempFileManager::new`          ↔ `empty`
  `TempFileManager::setup_file`   ↔ `claim`; the loop is `claimFrom`, one turn `claimIn`
  `TempFileManager::grow_in`      ↔ `growIn`; `growFile` and `growNew` are its two ways
  `TempFileManager::total_size`   ↔ `totalSize`
  `TempFileManager::drop`         ↔ `drop`
-/

namespace SpillStorage

structure SpillFiles where
  /-- The start of the names of new files. -/
  stem : FilePrefix
  files : List TempFile

/-- Where claimed bytes lie: a file, by its place among the spill files, and an offset in it. -/
structure Extent where
  file : Nat
  offset : Nat
  deriving DecidableEq, Repr

namespace SpillFiles

def empty (stem : FilePrefix) : SpillFiles := ⟨stem, []⟩

/-- Bytes claimed in all files. -/
def totalSize (s : SpillFiles) : Nat := Offset.total (s.files.map TempFile.size)

/-- Claims `size` bytes in the file at `place`. -/
def growFile (s : SpillFiles) (d : Disk) (place : Nat) (file : TempFile) (size : Nat) :
    (SpillFiles × Disk) × Except GrowthFault Extent :=
  match file.extend d size with
  | .ok (offset, grown, d) =>
    (({ s with files := s.files.set place grown }, d), .ok ⟨place, offset⟩)
  | .error fault => ((s, d), .error fault)

/-- Claims `size` bytes in a new file; a file that cannot grow is deleted again. -/
def growNew (s : SpillFiles) (d : Disk) (path : Path) (index size : Nat) :
    (SpillFiles × Disk) × Except GrowthFault Extent :=
  match TempFile.create d path index s.stem with
  | .error error => ((s, d), .error (.system error))
  | .ok (file, d) =>
    match file.extend d size with
    | .ok (offset, grown, d) =>
      (({ s with files := s.files ++ [grown] }, d), .ok ⟨s.files.length, offset⟩)
    | .error fault => ((s, d.dropTemp file.handle), .error fault)

/-- Claims `size` bytes in the file of one directory, a new one if it has none yet. -/
def growIn (s : SpillFiles) (d : Disk) (path : Path) (index size : Nat) :
    (SpillFiles × Disk) × Except GrowthFault Extent :=
  match s.files.findIdx? fun f => f.directory == index with
  | some place =>
    match s.files[place]? with
    | some file => s.growFile d place file size
    | none => s.growNew d path index size
  | none => s.growNew d path index size

/-- The answer of one directory: its extent, or why it refused. -/
def claimIn (s : SpillFiles) (h : Host) (directory : TempDirectory) (index size : Nat) :
    (SpillFiles × Host) × Except Refusal Extent :=
  match h.registry.reserveDirectory? index size with
  | none => ((s, h), .error (.quota directory.path (directory.limit.getD Offset.greatest)))
  | some registry =>
    match s.growIn h.disk directory.path index size with
    | ((s, disk), .ok extent) => ((s, { h with registry := registry, disk := disk }), .ok extent)
    | ((s, disk), .error fault) =>
      ((s, { h with registry := registry, disk := disk }.releaseDirectory index size),
        .error (.growth fault))

/-- Asks the directories in turn, from the one at `index` on. -/
def claimFrom (size : Nat) (s : SpillFiles) (h : Host) (refusals : List Refusal) (index : Nat) :
    List TempDirectory → Outcome (SpillFiles × Host) Extent
  | [] => .fail (s, h) (.outOfTempSpace size refusals.reverse)
  | directory :: rest =>
    match s.claimIn h directory index size with
    | (state, .ok extent) => .ok state extent
    | ((s, h), .error refusal) => claimFrom size s h (refusal :: refusals) (index + 1) rest

/-- Claims `size` contiguous bytes in some temp file. -/
def claim (s : SpillFiles) (h : Host) (size : Nat) : Outcome (SpillFiles × Host) Extent :=
  claimFrom size s h [] 0 h.registry.settings.directories

/-- Gives back what the files claimed and deletes them. -/
def drop (s : SpillFiles) (h : Host) : Host :=
  s.files.foldl
    (fun h file =>
      { h.releaseDirectory file.directory file.size with disk := h.disk.dropTemp file.handle })
    h

end SpillFiles

end SpillStorage
