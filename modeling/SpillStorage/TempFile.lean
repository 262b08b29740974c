import SpillStorage.Disk
import SpillStorage.FilePrefix
import SpillStorage.Offset
import SpillStorage.Outcome

/-!
A temp file knows its handle, its path, which configured directory hosts it, how long its file
system lets it get, and how many bytes of it are claimed. Claims grow the file; reads and writes go
to the bytes behind the handle, at any place that the file can reach, whatever is claimed.

Correspondence:
  `TempFile::create`                        ↔ `create`; the disk makes the file (`Disk.createTemp`)
  `TempFile::extend`                        ↔ `extend`
  `TempFile::read_at`, `TempFile::write_at` ↔ `readAt`, `writeAt`
-/

namespace SpillStorage

structure TempFile where
  handle : Nat
  path : Path
  /-- The place of the hosting directory in the settings. -/
  directory : Nat
  /-- How long the file can get. -/
  greatest : FileLength
  /-- Bytes claimed so far. -/
  size : Nat
  deriving DecidableEq, Repr

namespace TempFile

/-- The name of a temp file, with a star for its random part. -/
def nameOf (stem : FilePrefix) : List UInt8 := (Path.ofString (stem.text ++ "*")).bytes

/-- Makes an empty temp file in the directory at `path`, the one at `index` of the settings. -/
def create (d : Disk) (path : Path) (index : Nat) (stem : FilePrefix) :
    Except FileError (TempFile × Disk) :=
  let entry := path.child (nameOf stem)
  match d.createTemp path (nameOf stem) with
  | .ok (handle, greatest, d) => .ok (⟨handle, entry, index, greatest, 0⟩, d)
  | .error cause => .error ⟨.openFile, path, cause, some entry⟩

/-- Claims `delta` more bytes and answers where they start. -/
def extend (f : TempFile) (d : Disk) (delta : Nat) :
    Except GrowthFault (Nat × TempFile × Disk) :=
  match Offset.sum? f.size delta with
  | none => .error (.tooLong f.size delta)
  | some size =>
    if Disk.lengthBound ≤ size then .error (.system ⟨.extend, f.path, .lengthTooLarge, none⟩)
    else if f.greatest < size then
      .error (.system ⟨.extend, f.path, .fileTooLarge, none⟩)
    else
      .ok (f.size, { f with size := size },
        d.setContent f.handle ((d.content f.handle).resize size))

/-- Reads `length` bytes at `offset`. -/
def readAt (f : TempFile) (d : Disk) (offset length : Nat) : Transfer :=
  let content := d.content f.handle
  if f.greatest < offset then
    .refused (.fileSystem ⟨.seek, f.path, .invalidArgument, none⟩)
  else if length = 0 ∨ offset + length ≤ content.size then .whole (content.slice offset length)
  else
    ⟨content.slice offset (content.size - offset),
      some (.fileSystem ⟨.read, f.path, .endOfFile, none⟩)⟩

/-- Writes `bytes` at `offset`, as far as the file can get. -/
def writeAt (f : TempFile) (d : Disk) (offset : Nat) (bytes : List UInt8) : Outcome Disk Unit :=
  if f.greatest < offset then
    .fail d (.fileSystem ⟨.seek, f.path, .invalidArgument, none⟩)
  else
    let room := f.greatest - offset
    let written := (d.content f.handle).overwrite offset (bytes.take room)
    let d := d.setContent f.handle written
    if bytes.length ≤ room then .ok d ()
    else .fail d (.fileSystem ⟨.write, f.path, .fileTooLarge, none⟩)

end TempFile

end SpillStorage
