import SpillStorage.FilePrefix
import SpillStorage.Path

/-!
The settings of a registry: the directories for temp files in order of preference, each with an
optional quota, the ceiling for memory blocks, the block granularity, and the prefix of file names.
`validate` names the first fault: a bad prefix, then, directory by directory, an empty path, a path
that names a directory listed before, and a quota of zero.

Correspondence:
  `TempDirectory`, `TempSpaceConfig`   ↔ `TempDirectory`, `Settings`
  `TempSpaceConfig::default`           ↔ `standard`, given the directory for temporaries
  `TempSpaceConfig::new`               ↔ `exact`
  `TempSpaceConfig::validate`          ↔ `validate`; the loop is `directoryFault`
  `TempSpaceConfig::block_granularity` ↔ `granularity`
-/

namespace SpillStorage

/-- A directory for temp files, with the bytes that they may occupy there. -/
structure TempDirectory where
  path : Path
  limit : Option Nat
  deriving DecidableEq, Repr

structure Settings where
  directories : List TempDirectory
  cacheLimit : Nat
  minBlockSize : Nat
  filePrefix : String
  deriving DecidableEq, Repr

namespace Settings

/-- 64 MiB of memory blocks, blocks of 1 MiB, files in the system's directory for temporaries. -/
def standard (temporaries : Path := Path.usualTemporaries) : Settings where
  directories := [⟨temporaries, none⟩]
  cacheLimit := 64 * 1024 * 1024
  minBlockSize := 1024 * 1024
  filePrefix := "scratch_"

/-- Given directories and ceiling, with blocks of exact size. -/
def exact (directories : List TempDirectory) (cacheLimit : Nat) : Settings :=
  { standard with directories := directories, cacheLimit := cacheLimit, minBlockSize := 1 }

/-- Blocks come in multiples of this. -/
def granularity (s : Settings) : Nat := max s.minBlockSize 1

/-- The first fault of the directories, given the normalized paths listed before. -/
def directoryFault (seen : List Path) : List TempDirectory → Option SettingsFault
  | [] => none
  | d :: rest =>
    if d.path.bytes = [] then some .emptyPath
    else if d.path.normalize ∈ seen then some (.listedTwice d.path)
    else if d.limit = some 0 then some (.zeroLimit d.path)
    else directoryFault (d.path.normalize :: seen) rest

/-- The settings make sense, or else their first fault. -/
def validate (s : Settings) : Except Failure Unit :=
  match FilePrefix.ofString s.filePrefix with
  | .error f => .error f
  | .ok _ =>
    match directoryFault [] s.directories with
    | some fault => .error (.invalidSettings fault)
    | none => .ok ()

end Settings

end SpillStorage
