import SpillStorage.Offset
import SpillStorage.Settings

/-!
The registry keeps the accounts of the spaces that share its settings: the bytes of their memory
blocks against one ceiling, and the bytes of their temp files against the quota of each directory.
A reservation is granted whole or not at all; what is returned never takes an account below zero.

Correspondence:
  `TempSpaceRegistry::new`               ↔ `ofSettings`
  `TempSpaceRegistry::try_reserve_cache` ↔ `reserveCache?`
  `TempSpaceRegistry::release_cache`     ↔ `releaseCache`
  `TempSpaceRegistry::try_reserve_dir`   ↔ `reserveDirectory?`
  `TempSpaceRegistry::release_dir`       ↔ `releaseDirectory`
  `TempSpaceRegistry::dir_usage`         ↔ `directoryUsage`
  `TempSpaceRegistry::next_space_id`     ↔ `enroll`
-/

namespace SpillStorage

structure Registry where
  settings : Settings
  /-- Bytes held by memory blocks. -/
  cacheUsage : Nat
  /-- Bytes claimed in each directory of the settings. -/
  directoryUsages : List Nat
  /-- Spaces opened so far. -/
  opened : Nat
  deriving DecidableEq

namespace Registry

/-- A registry without usage, for settings that make sense. -/
def ofSettings (settings : Settings) : Except Failure Registry :=
  match settings.validate with
  | .error f => .error f
  | .ok () => .ok ⟨settings, 0, settings.directories.map fun _ => 0, 0⟩

/-- The account with `bytes` more, if that is an offset within the limit. -/
def grant? (usage bytes : Nat) (limit : Option Nat) : Option Nat :=
  match Offset.sum? usage bytes with
  | none => none
  | some total =>
    match limit with
    | none => some total
    | some limit => if total ≤ limit then some total else none

def reserveCache? (r : Registry) (bytes : Nat) : Option Registry :=
  (grant? r.cacheUsage bytes (some r.settings.cacheLimit)).map fun total =>
    { r with cacheUsage := total }

def releaseCache (r : Registry) (bytes : Nat) : Registry :=
  { r with cacheUsage := r.cacheUsage - bytes }

/-- Bytes claimed in the directory at `index`; none in a directory that there is not. -/
def directoryUsage (r : Registry) (index : Nat) : Nat := r.directoryUsages.getD index 0

def reserveDirectory? (r : Registry) (index bytes : Nat) : Option Registry :=
  match r.settings.directories[index]? with
  | none => none
  | some directory =>
    (grant? (r.directoryUsage index) bytes directory.limit).map fun total =>
      { r with directoryUsages := r.directoryUsages.set index total }

def releaseDirectory (r : Registry) (index bytes : Nat) : Registry :=
  { r with directoryUsages := r.directoryUsages.modify index fun used => used - bytes }

/-- The registry with one more space opened, and the number of that space. -/
def enroll (r : Registry) : Nat × Registry :=
  (r.opened + 1, { r with opened := r.opened + 1 })

end Registry

end SpillStorage
