import SpillStorage.Buffer
import SpillStorage.Failure
import SpillStorage.Index

/-!
The disk as the library meets it: a tree of directories, plain files with fixed content, and temp
files that are reached through handles. The random part of a temp file's name is left open and
written as a star. A temp file outlives its directory entry: removing the directory leaves the
bytes to the handle. A new handle is one that no file has, so handles that are in use never
coincide. Directories may lie on different file systems, so each tells on its own how long a file in
it can get.
-/

namespace SpillStorage

/-- The components of a place in the tree, from the root on. -/
abbrev Location := List (List UInt8)

structure StoredFile where
  /-- The directory that lists the file; none once that directory was removed. -/
  directory : Option Location
  /-- The fixed part of the name, with a star for the random part. -/
  name : List UInt8
  content : Buffer

/-- Lengths that a request can name are below this. -/
def Disk.lengthBound : Nat := Nat.pow 2 63

/-- How long a file can get. -/
abbrev FileLength := Fin Disk.lengthBound

structure Disk where
  /-- Where relative paths start. -/
  workingDirectory : Location
  /-- Where the system wants temporaries. -/
  temporaries : Path
  directories : List Location
  plainFiles : List (Location × List UInt8)
  /-- Temp files by handle. -/
  tempFiles : Index StoredFile
  /-- The greatest length of a file in each directory. No position past it can be reached. -/
  greatestLength : Location → FileLength

/-- One line of a directory listing. -/
structure Listed where
  name : List UInt8
  length : Nat
  isTemp : Bool
  deriving DecidableEq, Repr

namespace Disk

/-- The usual directory for temporaries. -/
def usualTemporaries : Location := ["tmp".toByteArray.data.toList]

/-- The name of the working directory is left open, like the random part of a temp file's name.
Zeros stand in for its bytes, and since no path holds a zero, none leads to the directory by its
name. -/
def anonymousName : List UInt8 := List.replicate 11 0

/-- A block of 4096 bytes short of 16 TiB. -/
def usualLength : FileLength := ⟨Nat.pow 2 44 - 4096, by decide⟩

/-- A disk with an empty directory for temporaries and, in it, an empty working directory. Files get
as long as usual unless it is said otherwise. -/
def standard (greatestLength : Location → FileLength := fun _ => usualLength) : Disk where
  workingDirectory := usualTemporaries ++ [anonymousName]
  temporaries := Path.usualTemporaries
  directories := [[], usualTemporaries, usualTemporaries ++ [anonymousName]]
  plainFiles := []
  tempFiles := .empty
  greatestLength := greatestLength

/-- The greatest length of a component in bytes. -/
def greatestNameLength : Nat := 255

/-- The greatest length of a path in bytes. -/
def greatestPathLength : Nat := 4095

/-- The length that a listing gives for a directory. -/
def directoryLength : Nat := 4096

def parentName : List UInt8 := [Path.dot, Path.dot]

def isDirectory (d : Disk) (place : Location) : Bool := d.directories.contains place

def plainFile? (d : Disk) (place : Location) : Option (List UInt8) :=
  (d.plainFiles.find? fun file => file.1 == place).map (·.2)

/-- The directory that a component leads to from `place`. -/
def enter (d : Disk) (place : Location) (component : List UInt8) : Except FileCause Location :=
  if component = parentName then .ok place.dropLast
  else if greatestNameLength < component.length then .error .nameTooLong
  else if d.isDirectory (place ++ [component]) then .ok (place ++ [component])
  else if (d.plainFile? (place ++ [component])).isSome then .error .notADirectory
  else .error .noSuchEntry

/-- Where a path starts. -/
def origin (d : Disk) (p : Path) : Location :=
  if p.isAbsolute then [] else d.workingDirectory

/-- The directory that the components lead to. -/
def walk (d : Disk) (place : Location) : List (List UInt8) → Except FileCause Location
  | [] => .ok place
  | component :: rest =>
    match d.enter place component with
    | .ok next => walk d next rest
    | .error cause => .error cause

/-- The directory that a path names, in a request whose own path is `length` bytes long; the empty
path names the working directory. -/
def directoryFor (d : Disk) (p : Path) (length : Nat) : Except FileCause Location :=
  if p.bytes.contains 0 then .error .nulInPath
  else if greatestPathLength < length then .error .nameTooLong
  else d.walk (d.origin p) p.components

/-- The directory that a path names. -/
def directoryAt (d : Disk) (p : Path) : Except FileCause Location :=
  d.directoryFor p p.bytes.length

/-- A path that ends in a slash or a dot names a directory only. -/
def namesDirectory (p : Path) : Bool :=
  match (Path.split Path.slash p.bytes).getLast? with
  | some piece => !Path.isProper piece
  | none => false

/-- The content of the plain file that a path names. -/
def contentAt (d : Disk) (p : Path) : Except FileCause (List UInt8) :=
  if p.bytes = [] then .error .noSuchEntry
  else if p.bytes.contains 0 then .error .nulInPath
  else if greatestPathLength < p.bytes.length then .error .nameTooLong
  else
    match p.components.getLast? with
    | none => .error .isADirectory
    | some name =>
      match d.walk (d.origin p) p.components.dropLast with
      | .error cause => .error cause
      | .ok place =>
        if name = parentName then .error .isADirectory
        else if greatestNameLength < name.length then .error .nameTooLong
        else if d.isDirectory (place ++ [name]) then .error .isADirectory
        else
          match d.plainFile? (place ++ [name]) with
          | none => .error .noSuchEntry
          | some content =>
            if namesDirectory p then .error .notADirectory else .ok content

/-- Makes the directories on the way along the components, up to one that cannot be made. -/
def makeAlong (d : Disk) (place : Location) : List (List UInt8) → Disk
  | [] => d
  | component :: rest =>
    if component = parentName then makeAlong d place.dropLast rest
    else if greatestNameLength < component.length then d
    else
      let next := place ++ [component]
      if d.isDirectory next then makeAlong d next rest
      else if (d.plainFile? next).isSome then d
      else makeAlong { d with directories := d.directories ++ [next] } next rest

/-- Makes a directory, with its parents. -/
def makeDirectory (d : Disk) (p : Path) : Disk := d.makeAlong (d.origin p) p.components

/-- Puts a plain file where the path says, if its directory is there. -/
def makeFile (d : Disk) (p : Path) (content : List UInt8) : Disk :=
  match p.components.getLast?, d.walk (d.origin p) p.components.dropLast with
  | some name, .ok place =>
    { d with plainFiles := (place ++ [name], content) :: d.plainFiles }
  | _, _ => d

/-- Removes a directory with all it holds. Temp files in it lose their entry, not their bytes. -/
def removeTree (d : Disk) (p : Path) : Disk :=
  match d.directoryAt p with
  | .error _ => d
  | .ok place =>
    { d with
      directories := d.directories.filter fun l => !place.isPrefixOf l
      plainFiles := d.plainFiles.filter fun f => !place.isPrefixOf f.1
      tempFiles :=
        { entries := d.tempFiles.entries.map fun (handle, file) =>
            (handle,
              if file.directory.any place.isPrefixOf then { file with directory := none }
              else file)
          sorted := List.pairwise_map.2 (d.tempFiles.sorted.imp id) } }

/-- What a directory lists, in no particular order; nothing if the path is empty or names no
directory. -/
def list? (d : Disk) (p : Path) : Option (List Listed) :=
  match d.directoryAt p with
  | .error _ => none
  | .ok place =>
    if d.isDirectory place ∧ p.bytes ≠ [] then
      let below (l : Location) : Option (List UInt8) :=
        if l.dropLast = place ∧ l ≠ place then l.getLast? else none
      some
        ((d.directories.filterMap fun l =>
            (below l).map fun name => ⟨name, directoryLength, false⟩) ++
          (d.plainFiles.filterMap fun f =>
            (below f.1).map fun name => ⟨name, f.2.length, false⟩) ++
          (d.tempFiles.values.filterMap fun f =>
            if f.directory = some place then some ⟨f.name, f.content.size, true⟩ else none))
    else none

/-! ## Temp files -/

/-- A path from the root on. -/
def absolute (d : Disk) (p : Path) : Path :=
  if p.isAbsolute then p
  else Path.child ⟨Path.slash :: Path.unsplit Path.slash d.workingDirectory⟩ p.bytes

/-- A star in a temp file's name stands for this many characters. -/
def randomLength : Nat := 6

/-- The length of a temp file's path from the root on, in which `name` has one star. -/
def tempPathLength (d : Disk) (directory : Path) (name : List UInt8) : Nat :=
  ((d.absolute directory).child name).bytes.length - 1 + randomLength

/-- A handle that no file has. -/
def freshHandle (d : Disk) : Nat :=
  match d.tempFiles.lastKey? with
  | some handle => handle + 1
  | none => 0

/-- Makes an empty temp file in a directory, and answers its handle and how long it can get. It is
asked for by its path from the root on, however the directory is given. -/
def createTemp (d : Disk) (directory : Path) (name : List UInt8) :
    Except FileCause (Nat × FileLength × Disk) :=
  match d.directoryFor directory (d.tempPathLength directory name) with
  | .error cause => .error cause
  | .ok place =>
    .ok (d.freshHandle, d.greatestLength place,
      { d with
        tempFiles := d.tempFiles.insert d.freshHandle ⟨some place, name, Buffer.zeros 0⟩ })

/-- The bytes behind a handle. -/
def content (d : Disk) (handle : Nat) : Buffer :=
  match d.tempFiles.get? handle with
  | some file => file.content
  | none => Buffer.zeros 0

/-- Changes the bytes behind a handle. -/
def setContent (d : Disk) (handle : Nat) (content : Buffer) : Disk :=
  match d.tempFiles.get? handle with
  | some file =>
    { d with tempFiles := d.tempFiles.insert handle { file with content := content } }
  | none => d

/-- Deletes the file behind a handle. -/
def dropTemp (d : Disk) (handle : Nat) : Disk :=
  { d with tempFiles := d.tempFiles.erase handle }

end Disk

end SpillStorage
