import SpillStorage.Path

/-!
What can go wrong, as causes, and the wording of each. A failure of the file system names the call,
the path that it was made for and the cause. `Failure.exhausted` tells the failures that more room
would cure.

Correspondence:
  `ScratchError`                         ↔ `Failure`, with `message` for its text
  `ScratchError::io`                     ↔ `FileError`
  `ScratchError::is_resource_exhaustion` ↔ `exhausted`
-/

namespace SpillStorage

/-- A request to the file system. -/
inductive FileCall where
  | openFile
  | extend
  | seek
  | read
  | write
  deriving DecidableEq, Repr

def FileCall.word : FileCall → String
  | .openFile => "open"
  | .extend => "extend"
  | .seek => "seek"
  | .read => "read"
  | .write => "write"

/-- Why the file system refused a request. -/
inductive FileCause where
  | noSuchEntry
  | notADirectory
  | isADirectory
  | invalidArgument
  | nameTooLong
  | nulInPath
  | fileTooLarge
  | lengthTooLarge
  | endOfFile
  | notUtf8
  deriving DecidableEq, Repr

def FileCause.message : FileCause → String
  | .noSuchEntry => "No such file or directory (os error 2)"
  | .notADirectory => "Not a directory (os error 20)"
  | .isADirectory => "Is a directory (os error 21)"
  | .invalidArgument => "Invalid argument (os error 22)"
  | .nameTooLong => "File name too long (os error 36)"
  | .nulInPath => "file name contained an unexpected NUL byte"
  | .fileTooLarge => "File too large (os error 27)"
  | .lengthTooLarge => "number too large to fit in target type"
  | .endOfFile => "failed to fill whole buffer"
  | .notUtf8 => "stream did not contain valid UTF-8"

/-- A refusal by the file system: the call, the path it was made for, the cause, and the entry that
could not be made, if the call was to make one. -/
structure FileError where
  call : FileCall
  path : Path
  cause : FileCause
  entry : Option Path := none
  deriving DecidableEq, Repr

def FileError.message (e : FileError) : String :=
  "I/O error in " ++ e.call.word ++ " on " ++ e.path.quoted ++ ": " ++ e.cause.message ++
    match e.entry with
    | some entry => " at path " ++ entry.quoted
    | none => ""

/-- The wording of a range that cannot be. -/
def invalidRangeMessage (offset size : Nat) : String :=
  "Invalid range: offset " ++ toString offset ++ ", size " ++ toString size

/-- Why a temp file cannot grow. -/
inductive GrowthFault where
  /-- Growing by `size` at `offset` leaves the range of offsets. -/
  | tooLong (offset size : Nat)
  | system (error : FileError)
  deriving DecidableEq, Repr

def GrowthFault.message : GrowthFault → String
  | .tooLong offset size => invalidRangeMessage offset size
  | .system error => error.message

/-- Why a directory cannot host an extent. -/
inductive Refusal where
  /-- The quota of the directory at `path` does not allow it. -/
  | quota (path : Path) (limit : Nat)
  | growth (fault : GrowthFault)
  deriving DecidableEq, Repr

def Refusal.message : Refusal → String
  | .quota path limit => path.quoted ++ ": quota of " ++ toString limit ++ " bytes exhausted"
  | .growth fault => fault.message

/-- Why a text is no offset. -/
inductive NumberFault where
  | empty
  | badDigit
  | tooLarge
  deriving DecidableEq, Repr

def NumberFault.message : NumberFault → String
  | .empty => "cannot parse integer from empty string"
  | .badDigit => "invalid digit found in string"
  | .tooLarge => "number too large to fit in target type"

/-- Settings that make no sense. -/
inductive SettingsFault where
  | emptyPath
  | listedTwice (path : Path)
  | zeroLimit (path : Path)
  | badNumber (name value : String) (fault : NumberFault)
  | notText (name : String) (value : ByteArray)
  | zeroRecordLength
  | alignmentNotPowerOfTwo (alignment : Nat)
  | unalignedRegion (size alignment : Nat)

def SettingsFault.message : SettingsFault → String
  | .emptyPath => "temp directory path cannot be empty"
  | .listedTwice path => "temp directory listed twice: " ++ path.quoted
  | .zeroLimit path => "temp directory " ++ path.quoted ++ " has a zero limit"
  | .badNumber name value fault => name ++ "=" ++ value ++ ": " ++ fault.message
  | .notText name value =>
    name ++ ": environment variable was not valid unicode: " ++ Text.quoted value
  | .zeroRecordLength => "record length must be non-zero"
  | .alignmentNotPowerOfTwo alignment =>
    "alignment " ++ toString alignment ++ " is not a power of two"
  | .unalignedRegion size alignment =>
    "region size " ++ toString size ++ " is not aligned to " ++ toString alignment

/-- Stored data that contradict each other. -/
inductive Contradiction where
  | missingFile (file : Nat)
  | oversizedBlob (offset length capacity : Nat)
  deriving DecidableEq, Repr

def Contradiction.message : Contradiction → String
  | .missingFile file => "missing temp file " ++ toString file
  | .oversizedBlob offset length capacity =>
    "blob at " ++ toString offset ++ " claims " ++ toString length ++ " bytes in a " ++
      toString capacity ++ "-byte slot"

/-- Why an operation was refused. -/
inductive Failure where
  /-- The range leaves the `size` bytes that there are. -/
  | outOfBounds (offset length size : Nat)
  /-- The range is empty, leaves the range of offsets, or is not what the operation applies to. -/
  | invalidRange (offset size : Nat)
  /-- A region of fixed capacity was asked to grow. -/
  | growthForbidden (requested capacity : Nat)
  /-- No directory can host `size` more bytes; one refusal a directory. -/
  | outOfTempSpace (size : Nat) (refusals : List Refusal)
  | fileSystem (error : FileError)
  | invalidSettings (fault : SettingsFault)
  | invalidPrefix (text : String)
  /-- A settings text that does not follow its grammar or its types. -/
  | malformedSettings
  /-- A text that is no written form of the value read from it. -/
  | malformedValue
  | contradiction (what : Contradiction)

namespace Failure

def message : Failure → String
  | .outOfBounds offset length size =>
    "Range out of bounds: offset " ++ toString offset ++ " + length " ++ toString length ++
      " exceeds logical size " ++ toString size
  | .invalidRange offset size => invalidRangeMessage offset size
  | .growthForbidden requested capacity =>
    "Growth forbidden: cannot extend by " ++ toString requested ++
      " bytes, fixed capacity is " ++ toString capacity
  | .outOfTempSpace size refusals =>
    "Out of temporary space: no directory can host " ++ toString size ++ " more bytes (" ++
      "; ".intercalate (refusals.map Refusal.message) ++ ")"
  | .fileSystem error => error.message
  | .invalidSettings fault => "Invalid configuration: " ++ fault.message
  | .invalidPrefix text =>
    "Invalid temp file prefix: " ++ text ++
      " (letters, digits, '_', '.', '-' only, 1-64 chars)"
  | .malformedSettings => "Configuration parse error"
  | .malformedValue => "Serialization error"
  | .contradiction what => "Consistency check failed: " ++ what.message

/-- Room ran out: the region can only be discarded. -/
def exhausted : Failure → Bool
  | .outOfTempSpace _ _ => true
  | .growthForbidden _ _ => true
  | _ => false

end Failure

/-- A temp file that cannot grow, as its owner reports it. -/
def GrowthFault.toFailure : GrowthFault → Failure
  | .tooLong offset size => .invalidRange offset size
  | .system error => .fileSystem error

end SpillStorage
