import SpillStorage.Offset
import SpillStorage.Settings.Source
import SpillStorage.Text.Blank
import SpillStorage.Text.Digit

/-!
Settings from the environment. Three variables override a list of directories, the memory ceiling
and the block granularity. Directories are separated by colons; numbers are decimal, with white
space around them and a plus sign in front of them allowed.

Correspondence:
  `TempSpaceConfig::with_env_overrides` ↔ `overriddenBy`
  `env_u64`                             ↔ `number`
-/

namespace SpillStorage

/-- The offset that `value` becomes with further digits behind it. A character that is no digit is
reported before a number that it would make too large. -/
def Offset.ofDigits (value : Nat) : List Char → Except NumberFault Nat
  | [] => .ok value
  | c :: rest =>
    if !c.isDigit then .error .badDigit
    else
      let next := 10 * value + Text.digitValue c
      if next ≤ Offset.greatest then ofDigits next rest else .error .tooLarge

/-- The offset that decimal digits write, perhaps after a plus sign. -/
def Offset.ofDecimal : List Char → Except NumberFault Nat
  | [] => .error .empty
  | [c] => ofDigits 0 [c]
  | '+' :: digits => ofDigits 0 digits
  | digits => ofDigits 0 digits

/-- The values of the variables that override settings; none where a variable is not set. -/
structure Environment where
  /-- Directories, separated by colons. -/
  directories : Option (List UInt8)
  cacheLimit : Option (List UInt8)
  minBlockSize : Option (List UInt8)
  deriving DecidableEq, Repr

namespace Environment

def directoriesName : String := "SCRATCH_TEMP_DIRS"

def cacheLimitName : String := "SCRATCH_CACHE_LIMIT"

def minBlockSizeName : String := "SCRATCH_MIN_BLOCK_SIZE"

def colon : UInt8 := 0x3a

/-- The directories of a list, without quotas; empty entries name none. -/
def directoriesOf (value : List UInt8) : List TempDirectory :=
  ((Path.split colon value).filter fun bytes => !bytes.isEmpty).map fun bytes => ⟨⟨bytes⟩, none⟩

/-- The number that the variable `name` gives; `unset` if it is not set. -/
def number (name : String) (unset : Nat) : Option (List UInt8) → Except Failure Nat
  | none => .ok unset
  | some value =>
    match String.fromUTF8? ⟨⟨value⟩⟩ with
    | none => .error (.invalidSettings (.notText name ⟨⟨value⟩⟩))
    | some text =>
      match Offset.ofDecimal (Text.trim text.toList) with
      | .ok n => .ok n
      | .error fault => .error (.invalidSettings (.badNumber name text fault))

end Environment

/-- The settings with what the environment overrides. -/
def Settings.overriddenBy (s : Settings) (e : Environment) : Except Failure Settings := do
  let directories :=
    match e.directories with
    | some value => Environment.directoriesOf value
    | none => s.directories
  let cacheLimit ← Environment.number Environment.cacheLimitName s.cacheLimit e.cacheLimit
  let minBlockSize ← Environment.number Environment.minBlockSizeName s.minBlockSize e.minBlockSize
  Settings.validated ⟨directories, cacheLimit, minBlockSize, s.filePrefix⟩

end SpillStorage
