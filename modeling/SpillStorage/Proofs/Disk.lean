import SpillStorage.Disk
import SpillStorage.Proofs.Index

/-!
The disk as a map from handles to bytes.

What is proved:
  1. `content?_setContent`, `content?_dropTemp` and `createTemp_ok`: each change is seen behind
     its own handle alone; a new handle is one that leads nowhere before, and to give it up is to
     be back at the disk from before.
  2. `content?_makeDirectory`, `content?_makeFile` and `content?_removeTree`: the tree of
     directories can change under open files without a change to their bytes.
-/

namespace SpillStorage.Disk

/-- The bytes behind a handle, if it leads to a file. -/
def content? (d : Disk) (handle : Nat) : Option Buffer :=
  (d.tempFiles.get? handle).map StoredFile.content

theorem content_eq (d : Disk) (handle : Nat) :
    d.content handle = (d.content? handle).getD (Buffer.zeros 0) := by
  unfold content content?
  cases d.tempFiles.get? handle <;> rfl

theorem content_of_content? {d : Disk} {handle : Nat} {b : Buffer}
    (h : d.content? handle = some b) : d.content handle = b := by
  rw [content_eq, h, Option.getD_some]

theorem content_congr {d d' : Disk} {handle : Nat} (h : d'.content? handle = d.content? handle) :
    d'.content handle = d.content handle := by
  rw [content_eq, content_eq, h]

theorem content?_setContent (d : Disk) (handle other : Nat) (b : Buffer) :
    (d.setContent handle b).content? other =
      if other = handle then (d.content? handle).map fun _ => b else d.content? other := by
  unfold setContent content?
  cases hget : d.tempFiles.get? handle with
  | none =>
    by_cases heq : other = handle
    · rw [if_pos heq, heq, hget]
      rfl
    · rw [if_neg heq]
  | some file =>
    simp only [Index.get?_insert]
    split <;> rfl

theorem content?_dropTemp (d : Disk) (handle other : Nat) :
    (d.dropTemp handle).content? other = if other = handle then none else d.content? other := by
  unfold dropTemp content?
  rw [Index.get?_erase]
  split <;> rfl

/-! ## New files -/

theorem get?_freshHandle (d : Disk) : d.tempFiles.get? d.freshHandle = none := by
  rw [Index.get?_eq_none_iff]
  intro e he heq
  unfold freshHandle Index.lastKey? at heq
  cases hlast : d.tempFiles.entries.getLast? with
  | none =>
    rw [List.getLast?_eq_none_iff.1 hlast] at he
    cases he
  | some last =>
    rw [hlast] at heq
    obtain ⟨front, hfront⟩ := List.getLast?_eq_some_iff.1 hlast
    have hs := d.tempFiles.sorted
    simp only [Option.map_some] at heq
    rw [hfront] at hs he
    rcases List.mem_append.1 he with he | he
    · have := (List.pairwise_append.1 hs).2.2 e he last (List.mem_singleton_self _)
      omega
    · rw [List.mem_singleton.1 he] at heq
      omega

theorem createTemp_ok {d d' : Disk} {directory : Path} {name : List UInt8} {handle : Nat}
    {greatest : FileLength} (h : d.createTemp directory name = .ok (handle, greatest, d')) :
    d.content? handle = none ∧ d'.dropTemp handle = d ∧
      ∀ other, d'.content? other =
        if other = handle then some (Buffer.zeros 0) else d.content? other := by
  unfold createTemp at h
  split at h
  · cases h
  · cases h
    refine ⟨?_, ?_, ?_⟩
    · rw [content?, get?_freshHandle]
      rfl
    · rw [dropTemp, Index.erase_insert_of_get?_none _ d.get?_freshHandle]
    · intro other
      unfold content?
      rw [Index.get?_insert]
      split <;> rfl

/-! ## The tree of directories -/

theorem tempFiles_makeAlong (d : Disk) (place : Location) (components : List (List UInt8)) :
    (d.makeAlong place components).tempFiles = d.tempFiles := by
  induction components generalizing d place with
  | nil => rfl
  | cons component rest ih =>
    simp only [makeAlong]
    split
    · exact ih d _
    · split
      · rfl
      · split
        · exact ih d _
        · split
          · rfl
          · exact ih _ _

theorem content?_makeDirectory (d : Disk) (p : Path) (handle : Nat) :
    (d.makeDirectory p).content? handle = d.content? handle := by
  rw [content?, makeDirectory, tempFiles_makeAlong]
  rfl

theorem content?_makeFile (d : Disk) (p : Path) (content : List UInt8) (handle : Nat) :
    (d.makeFile p content).content? handle = d.content? handle := by
  unfold makeFile
  split <;> rfl

theorem content?_removeTree (d : Disk) (p : Path) (handle : Nat) :
    (d.removeTree p).content? handle = d.content? handle := by
  unfold removeTree
  split
  · rfl
  · simp only [content?, Index.get?, List.find?_map, Option.map_map, Function.comp_def]
    cases d.tempFiles.entries.find? fun e => e.1 == handle with
    | none => rfl
    | some e =>
      simp only [Option.map_some]
      split <;> rfl

end SpillStorage.Disk
