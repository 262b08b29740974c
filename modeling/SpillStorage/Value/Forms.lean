import SpillStorage.Decimal.Layout
import SpillStorage.Space.Batch
import SpillStorage.Space.Report
import SpillStorage.Value

/-!
The forms that the library's own data take as values: which fields a record has and in which order,
which of them may be missing and what they are then. A missing quota is written by leaving it out.
-/

namespace SpillStorage

/-- A record with named fields. -/
def Value.record (fields : List (String × Value)) : Value :=
  .table (fields.map fun (name, v) => (Fragment.ofString name, v))

/-- Reads a field that has to be there. -/
def Value.required? (f : Value → Option α) (field : Option Value) : Option α := field.bind f

/-- Reads a field that may be missing, with what it is then. -/
def Value.orElse? (f : Value → Option α) (missing : α) : Option Value → Option α
  | none => some missing
  | some v => f v

/-! ## Segments and regions -/

def Segment.toValue (s : Segment) : Value :=
  .record [("position", .ofNat s.position), ("size", .ofNat s.size)]

def Segment.ofValue? (surplus : Bool) (v : Value) : Option Segment :=
  match v.fields? ["position", "size"] surplus with
  | some [position, size] => do
    return ⟨← Value.required? Value.offset? position, ← Value.required? Value.offset? size⟩
  | _ => none

def Region.toValue (r : Region) : Value :=
  .record [("offset", .ofNat r.offset), ("size", .ofNat r.size)]

def Region.ofValue? (surplus : Bool) (v : Value) : Option Region :=
  match v.fields? ["offset", "size"] surplus with
  | some [offset, size] => do
    return ⟨← Value.required? Value.offset? offset, ← Value.required? Value.offset? size⟩
  | _ => none

/-! ## Settings -/

/-- A directory whose path is a text. -/
def TempDirectory.toValue? (d : TempDirectory) : Option Value :=
  d.path.text?.map fun path =>
    .record (("path", .ofString path) ::
      match d.limit with
      | some limit => [("limit", .ofNat limit)]
      | none => [])

def TempDirectory.ofValue? (surplus : Bool) (v : Value) : Option TempDirectory :=
  match v.fields? ["path", "limit"] surplus with
  | some [path, limit] => do
    let path ← Value.required? Value.string? path
    let limit ← Value.orElse? (Value.optional? Value.offset?) none limit
    return ⟨Path.ofString path, limit⟩
  | _ => none

/-- Settings whose paths are texts. -/
def Settings.toValue? (s : Settings) : Option Value :=
  (s.directories.mapM TempDirectory.toValue?).map fun directories =>
    .record [("directories", .list directories), ("cache_limit", .ofNat s.cacheLimit),
      ("min_block_size", .ofNat s.minBlockSize), ("file_prefix", .ofString s.filePrefix)]

/-- The directories of a list. -/
def TempDirectory.listOfValue? (surplus : Bool) (v : Value) : Option (List TempDirectory) :=
  v.items?.bind fun items => items.mapM (TempDirectory.ofValue? surplus)

/-- Every field may be missing and is then that of the standard settings. -/
def Settings.ofValue? (surplus : Bool) (temporaries : Path := Path.usualTemporaries)
    (v : Value) : Option Settings :=
  let standard := Settings.standard temporaries
  match v.fields? ["directories", "cache_limit", "min_block_size", "file_prefix"] surplus with
  | some [directories, cacheLimit, minBlockSize, filePrefix] => do
    let directories ← Value.orElse? (TempDirectory.listOfValue? surplus) standard.directories
      directories
    let cacheLimit ← Value.orElse? Value.offset? standard.cacheLimit cacheLimit
    let minBlockSize ← Value.orElse? Value.offset? standard.minBlockSize minBlockSize
    let filePrefix ← Value.orElse? Value.string? standard.filePrefix filePrefix
    return ⟨directories, cacheLimit, minBlockSize, filePrefix⟩
  | _ => none

/-! ## Statistics -/

namespace Space.Stats

/-- The fragmentation is written positionally from `0.00001` up to 16 digits before the point. -/
def fragmentationLayout : Decimal.Layout := ⟨-4, 16⟩

def toValue (s : Stats) : Value :=
  .record [("logical_size", .ofNat s.logicalSize), ("physical_size", .ofNat s.physicalSize),
    ("memory_bytes", .ofNat s.memoryBytes), ("file_bytes", .ofNat s.fileBytes),
    ("memory_blocks", .ofNat s.memoryBlocks), ("file_blocks", .ofNat s.fileBlocks),
    ("temp_files", .ofNat s.tempFiles), ("free_bytes", .ofNat s.freeBytes),
    ("free_segments", .ofNat s.freeSegments),
    ("fragmentation", .number (Decimal.numeral fragmentationLayout s.fragmentation))]

def ofValue? (surplus : Bool) (v : Value) : Option Stats :=
  match v.fields? ["logical_size", "physical_size", "memory_bytes", "file_bytes",
      "memory_blocks", "file_blocks", "temp_files", "free_bytes", "free_segments",
      "fragmentation"] surplus with
  | some [logicalSize, physicalSize, memoryBytes, fileBytes, memoryBlocks, fileBlocks,
      tempFiles, freeBytes, freeSegments, fragmentation] => do
    return {
      logicalSize := ← Value.required? Value.offset? logicalSize
      physicalSize := ← Value.required? Value.offset? physicalSize
      memoryBytes := ← Value.required? Value.offset? memoryBytes
      fileBytes := ← Value.required? Value.offset? fileBytes
      memoryBlocks := ← Value.required? Value.offset? memoryBlocks
      fileBlocks := ← Value.required? Value.offset? fileBlocks
      tempFiles := ← Value.required? Value.offset? tempFiles
      freeBytes := ← Value.required? Value.offset? freeBytes
      freeSegments := ← Value.required? Value.offset? freeSegments
      fragmentation := ← Value.required? Value.real? fragmentation }
  | _ => none

end Space.Stats

end SpillStorage
