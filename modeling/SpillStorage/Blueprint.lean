import SpillStorage.Space

/-!
A blueprint collects what a caller settles before a space is opened: the settings of its registry,
where they differ from the standard ones, and the options of the space.

Correspondence:
  `ScratchBuilder`        ↔ `Blueprint`
  `ScratchBuilder::build` ↔ `build`, with `settings` where no registry is shared
-/

namespace SpillStorage

structure Blueprint where
  /-- The directories for temp files, those of the standard settings if none are given. -/
  directories : List TempDirectory := []
  cacheLimit : Option Nat := none
  minBlockSize : Option Nat := none
  options : SpaceOptions := {}

namespace Blueprint

/-- The settings of a registry for this space alone. -/
def settings (b : Blueprint) (temporaries : Path := Path.usualTemporaries) : Settings :=
  let standard := Settings.standard temporaries
  { standard with
    directories := if b.directories.isEmpty then standard.directories else b.directories
    cacheLimit := b.cacheLimit.getD standard.cacheLimit
    minBlockSize := b.minBlockSize.getD standard.minBlockSize }

/-- Opens the space, on a shared registry if one is given, whose settings then count alone, and
else on a new one. -/
def build (b : Blueprint) (shared : Option Registry)
    (temporaries : Path := Path.usualTemporaries) : Except Failure (Space × Registry) :=
  match shared with
  | some registry => Space.create registry b.options
  | none =>
    match Registry.ofSettings (b.settings temporaries) with
    | .ok registry => Space.create registry b.options
    | .error f => .error f

end Blueprint

end SpillStorage
