import SpillStorage.Pool.Audit
import SpillStorage.Pool.Fragmentation
import SpillStorage.Space

/-!
Reports on a space: an audit that compares its parts and lists what contradicts, its statistics,
and a one-line description.

Correspondence:
  `ValidationReport`, `ScratchStats` ↔ `Audit`, `Stats`
  `ScratchSpace::validate`           ↔ `audit`; the issues are `flaws`, their texts `Flaw.message`
  `ScratchSpace::stats`              ↔ `stats`
  `ScratchSpace::fmt`                ↔ `describe`
-/

namespace SpillStorage.Space

/-- One way in which the parts of a space contradict each other. -/
inductive Flaw where
  | pool (flaw : Pool.Flaw)
  | gap (start expected : Nat)
  | emptyBlock (start : Nat)
  | sizeMismatch (covered size : Nat)
  | logicalBeyondPhysical (logical physical : Nat)
  | memoryMismatch (held reserved : Nat)
  | fileMismatch (held claimed : Nat)
  deriving DecidableEq, Repr

def Flaw.message : Flaw → String
  | .pool flaw => flaw.message
  | .gap start expected =>
    "block at " ++ toString start ++ " follows a block ending at " ++ toString expected
  | .emptyBlock start => "empty block at " ++ toString start
  | .sizeMismatch covered size =>
    "blocks cover " ++ toString covered ++ " bytes, chain reports " ++ toString size
  | .logicalBeyondPhysical logical physical =>
    "logical size " ++ toString logical ++ " exceeds physical size " ++ toString physical
  | .memoryMismatch held reserved =>
    "memory blocks hold " ++ toString held ++ " bytes, " ++ toString reserved ++ " reserved"
  | .fileMismatch held claimed =>
    "file blocks hold " ++ toString held ++ " bytes, temp files " ++ toString claimed

/-- The flaws of blocks that should start at `expected`. -/
def blockFlaws (expected : Nat) : List Block → List Flaw
  | [] => []
  | b :: rest =>
    flawIf (b.start != expected) (.gap b.start expected) ++
    flawIf (b.size == 0) (.emptyBlock b.start) ++ blockFlaws b.finish rest

/-- Where the last block ends. -/
def coveredBytes (blocks : List Block) : Nat :=
  match blocks.getLast? with
  | some b => b.finish
  | none => 0

/-- Every flaw of the space. -/
def flaws (s : Space) : List Flaw :=
  (s.free.audit s.logicalSize).map .pool ++
  blockFlaws 0 s.chain.blocks ++
  flawIf (coveredBytes s.chain.blocks != s.chain.size)
    (.sizeMismatch (coveredBytes s.chain.blocks) s.chain.size) ++
  flawIf (decide (s.chain.size < s.logicalSize))
    (.logicalBeyondPhysical s.logicalSize s.chain.size) ++
  flawIf (s.chain.memoryBytes false != s.cacheUsage)
    (.memoryMismatch (s.chain.memoryBytes false) s.cacheUsage) ++
  flawIf (s.chain.fileBytes != s.files.totalSize)
    (.fileMismatch s.chain.fileBytes s.files.totalSize)

/-- The result of an audit. -/
structure Audit where
  ok : Bool
  totalFree : Nat
  flaws : List Flaw
  deriving DecidableEq, Repr

def audit (s : Space) : Audit := ⟨s.flaws.isEmpty, s.free.freeBytes, s.flaws⟩

/-- The statistics of a space at one moment. -/
structure Stats where
  logicalSize : Nat
  physicalSize : Nat
  memoryBytes : Nat
  fileBytes : Nat
  memoryBlocks : Nat
  fileBlocks : Nat
  tempFiles : Nat
  freeBytes : Nat
  freeSegments : Nat
  fragmentation : Binary64
  deriving DecidableEq, Repr

def stats (s : Space) : Stats where
  logicalSize := s.logicalSize
  physicalSize := s.chain.size
  memoryBytes := s.chain.memoryBytes true
  fileBytes := s.chain.fileBytes
  memoryBlocks := s.chain.blocks.countP Block.isMemory
  fileBlocks := s.chain.blocks.length - s.chain.blocks.countP Block.isMemory
  tempFiles := s.files.files.length
  freeBytes := s.free.freeBytes
  freeSegments := s.free.count
  fragmentation := s.free.fragmentation

/-- The space in one line. -/
def describe (s : Space) : String :=
  "ScratchSpace \x7b id: " ++ toString s.number ++
  ", logical_size: " ++ toString s.logicalSize ++
  ", physical_size: " ++ toString s.chain.size ++
  ", blocks: " ++ toString s.chain.blocks.length ++
  ", temp_files: " ++ toString s.files.files.length ++
  ", free_bytes: " ++ toString s.free.freeBytes ++ " \x7d"

end SpillStorage.Space
