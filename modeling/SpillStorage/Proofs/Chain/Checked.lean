import SpillStorage.Proofs.Offset
import SpillStorage.Proofs.Chain.Image

/-!
Chains with every index, slice, sum and difference checked, in blocks that are appended, in lookup,
in views, in reading and in writing: where one is out of range the operation ends without a result.

What is proved:
  1. `pushMemoryChecked_eq` and `pushFileChecked_eq`: no check fails where a block is appended to a
     chain that stays shorter than `2 ^ 64` bytes.
  2. `Joint.find?_eq_some_iff`: lookup finds the one block that holds the offset.
  3. `findChecked_eq`: halving the range of block numbers finds the same block. Empty blocks end
     where their neighbours do, so the ends of the blocks only have to rise, not to differ.
  4. `findMemoryChecked_eq` and `Seated.inRange`: in a chain shorter than `2 ^ 64` bytes no check
     ever fails, and the results of searching, viewing, reading and writing are those without.

The loops count what they moved. That no count is too great rests on one invariant: it is no greater
than the address that the loop has come to.
-/

namespace SpillStorage

namespace Buffer

/-- The `length` bytes from `place` on, if the buffer has them all. -/
def sliceChecked (data : Buffer) (place length : Nat) : Option (List UInt8) := do
  let finish ← Offset.sum? place length
  if finish ≤ data.size then return data.slice place length else none

/-- The buffer with `bytes` at `place`, if it has room for them all. -/
def overwriteChecked (data : Buffer) (place : Nat) (bytes : List UInt8) : Option Buffer := do
  let finish ← Offset.sum? place bytes.length
  if finish ≤ data.size then return data.overwrite place bytes else none

variable {data : Buffer} {place length : Nat} {bytes : List UInt8}

theorem sliceChecked_eq (hle : place + length ≤ data.size) (hbound : data.size < Offset.bound) :
    data.sliceChecked place length = some (data.slice place length) := by
  unfold sliceChecked
  rw [Offset.sum?_of_lt (by omega)]
  simp only [Option.bind_eq_bind, Option.bind_some, if_pos hle]
  rfl

theorem overwriteChecked_eq (hle : place + bytes.length ≤ data.size)
    (hbound : data.size < Offset.bound) :
    data.overwriteChecked place bytes = some (data.overwrite place bytes) := by
  unfold overwriteChecked
  rw [Offset.sum?_of_lt (by omega)]
  simp only [Option.bind_eq_bind, Option.bind_some, if_pos hle]
  rfl

end Buffer

namespace Block

/-- Reads from `place` on what the block has, but no more than `room` bytes, and counts them. -/
def readChecked (b : Block) (files : List TempFile) (d : Disk) (place room : Nat) :
    Option (Nat × Transfer) := do
  let left ← Offset.difference? b.size place
  let n := min left room
  match b.backing with
  | .memory data _ =>
    let bytes ← data.sliceChecked place n
    return (n, .whole bytes)
  | .file file offset =>
    match files[file]? with
    | some f =>
      let position ← Offset.sum? offset place
      return (n, f.readAt d position n)
    | none => return (n, .refused (.contradiction (.missingFile file)))

/-- Writes from `place` on as many of the bytes as the block has room for, and counts them. -/
def writeChecked (b : Block) (files : List TempFile) (d : Disk) (place : Nat)
    (bytes : List UInt8) : Option (Nat × Outcome (Block × Disk) Unit) := do
  let left ← Offset.difference? b.size place
  let n := min left bytes.length
  match b.backing with
  | .memory data initial =>
    let written ← data.overwriteChecked place (bytes.take n)
    return (n, .ok ({ b with backing := .memory written initial }, d) ())
  | .file file offset =>
    match files[file]? with
    | none => return (n, .fail (b, d) (.contradiction (.missingFile file)))
    | some f =>
      let position ← Offset.sum? offset place
      return (n, (f.writeAt d position (bytes.take n)).onState fun d => (b, d))

/-- The `size` bytes from `place` on, if the block is in memory and has them all. -/
def viewChecked (b : Block) (place size : Nat) : Option (Option (List UInt8)) :=
  match b.backing with
  | .memory data _ =>
    match Offset.sum? place size with
    | some last => if last ≤ b.size then (data.sliceChecked place size).map some else some none
    | none => some none
  | .file _ _ => some none

/-- The block with bytes stored into that view, over its start and as many as fit. -/
def storeChecked (b : Block) (place size : Nat) (bytes : List UInt8) : Option (Option Block) :=
  match b.backing with
  | .memory data initial => do
    match ← b.viewChecked place size with
    | some _ =>
      let stored ← data.overwriteChecked place (bytes.take size)
      return some { b with backing := .memory stored initial }
    | none => return none
  | .file _ _ => some none

variable {b : Block} {files : List TempFile} {d : Disk} {place : Nat}

theorem viewChecked_eq (hb : b.Filled) (hbound : b.size < Offset.bound) (place size : Nat) :
    b.viewChecked place size =
      some ((b.window? place size).map fun data => data.slice place size) := by
  unfold viewChecked window?
  cases hbacking : b.backing with
  | file file offset => rfl
  | memory data initial =>
    have hsize := hb data initial hbacking
    by_cases hfits : place + size ≤ b.size
    · simp only [Offset.sum?_of_lt (show place + size < Offset.bound by omega), if_pos hfits,
        Buffer.sliceChecked_eq (hsize ▸ hfits) (hsize ▸ hbound), Option.map_some]
    -- an end past all offsets is past the block
    · simp only [if_neg hfits, Option.map_none]
      cases hsum : Offset.sum? place size with
      | none => rfl
      | some last =>
        obtain ⟨rfl, -⟩ := Offset.sum?_eq_some_iff.1 hsum
        exact if_neg hfits

theorem storeChecked_eq (hb : b.Filled) (hbound : b.size < Offset.bound) {data : Buffer}
    {initial : Bool} (hbacking : b.backing = .memory data initial) (place size : Nat)
    (bytes : List UInt8) :
    b.storeChecked place size bytes = some (if (b.window? place size).isSome then
      some { b with backing := .memory (data.overwrite place (bytes.take size)) initial }
      else none) := by
  have hsize := hb data initial hbacking
  simp only [storeChecked, hbacking, viewChecked_eq hb hbound, window?]
  by_cases hfits : place + size ≤ b.size
  · have hroom : place + (bytes.take size).length ≤ data.size := by
      rw [List.length_take]
      omega
    simp only [if_pos hfits, Option.map_some, Option.isSome_some, if_true,
      Buffer.overwriteChecked_eq hroom (hsize ▸ hbound)]
    rfl
  · simp only [if_neg hfits, Option.map_none, Option.isSome_none, Bool.false_eq_true, if_false]
    rfl

/-- No place in a file is too great for an offset. -/
theorem Placed.sum?_eq (hfiles : ∀ f ∈ files, f.Backed d) (hb : b.Placed files)
    (hplace : place ≤ b.size) {file offset : Nat} (hfile : b.backing = .file file offset) :
    ∃ f, files[file]? = some f ∧ Offset.sum? offset place = some (offset + place) := by
  obtain ⟨f, hf, hle⟩ := hb.2 file offset hfile
  have hsize := (hfiles f (List.mem_of_getElem? hf)).size_le
  have hgreatest := f.greatest.isLt
  have hbound : Disk.lengthBound < Offset.bound := by decide
  exact ⟨f, hf, Offset.sum?_of_lt (by omega)⟩

theorem readChecked_eq (hfiles : ∀ f ∈ files, f.Backed d) (hb : b.Placed files)
    (hplace : place ≤ b.size) (hbound : b.size < Offset.bound) (room : Nat) :
    b.readChecked files d place room =
      some (min (b.size - place) room, b.read files d place (min (b.size - place) room)) := by
  unfold readChecked read
  rw [Offset.difference?_of_le hplace]
  simp only [Option.bind_eq_bind, Option.bind_some]
  cases hbacking : b.backing with
  | memory data initial =>
    have hsize := hb.1 data initial hbacking
    simp only [data.sliceChecked_eq (show place + min (b.size - place) room ≤ data.size by omega)
      (hsize ▸ hbound), Option.bind_some]
    rfl
  | file file offset =>
    obtain ⟨f, hf, hsum⟩ := hb.sum?_eq hfiles hplace hbacking
    simp only [hf, hsum, Option.bind_some]
    rfl

theorem writeChecked_eq (hfiles : ∀ f ∈ files, f.Backed d) (hb : b.Placed files)
    (hplace : place ≤ b.size) (hbound : b.size < Offset.bound) (bytes : List UInt8) :
    b.writeChecked files d place bytes = some (min (b.size - place) bytes.length,
      b.write files d place (bytes.take (min (b.size - place) bytes.length))) := by
  unfold writeChecked write
  rw [Offset.difference?_of_le hplace]
  simp only [Option.bind_eq_bind, Option.bind_some]
  cases hbacking : b.backing with
  | memory data initial =>
    have hsize := hb.1 data initial hbacking
    have hfits : place + (bytes.take (min (b.size - place) bytes.length)).length ≤ data.size := by
      rw [List.length_take]
      omega
    simp only [Buffer.overwriteChecked_eq hfits (hsize ▸ hbound), Option.bind_some]
    rfl
  | file file offset =>
    obtain ⟨f, hf, hsum⟩ := hb.sum?_eq hfiles hplace hbacking
    simp only [hf, hsum, Option.bind_some]
    rfl

end Block

namespace Chain

variable {c : Chain} {blocks rest : List Block} {b : Block} {files : List TempFile} {d : Disk}
  {overrun : Failure} {offset first last index start place done : Nat}

/-- No block ends behind the chain. -/
theorem Joint.finish_le (h : c.Joint) (hb : b ∈ c.blocks) : b.finish ≤ c.size :=
  (EndToEnd.bounds h _ (List.mem_map_of_mem hb)).2

/-! ## Appending -/

/-- Appends a memory block; no bytes make no block. -/
def pushMemoryChecked (c : Chain) (data : Buffer) (initial : Bool) : Option Chain :=
  if data.size = 0 then some c
  else do
    let size ← Offset.sum? c.size data.size
    return ⟨c.blocks ++ [⟨c.size, data.size, .memory data initial⟩], size⟩

/-- The last block ends where the extent starts, in the same file. -/
def continuesChecked (last : Block) (file offset : Nat) : Option Bool :=
  match last.backing with
  | .memory _ _ => some false
  | .file lastFile lastOffset =>
    if lastFile == file then (Offset.sum? lastOffset last.size).map (· == offset) else some false

/-- Appends an extent of a file, and answers whether the last block was lengthened by it instead of
a new one made. -/
def pushFileChecked (c : Chain) (file offset size : Nat) : Option (Bool × Chain) := do
  let total ← Offset.sum? c.size size
  match c.blocks.getLast? with
  | some last =>
    if ← continuesChecked last file offset then
      let longer ← Offset.sum? last.size size
      return (true, ⟨c.blocks.dropLast ++ [{ last with size := longer }], total⟩)
    else return (false, ⟨c.blocks ++ [⟨c.size, size, .file file offset⟩], total⟩)
  | none => return (false, ⟨c.blocks ++ [⟨c.size, size, .file file offset⟩], total⟩)

theorem pushMemoryChecked_eq {data : Buffer} (hbound : c.size + data.size < Offset.bound)
    (initial : Bool) : c.pushMemoryChecked data initial = some (c.pushMemory data initial) := by
  unfold pushMemoryChecked pushMemory
  by_cases hempty : data.size = 0
  · rw [if_pos hempty, if_pos hempty]
  · rw [if_neg hempty, if_neg hempty, Offset.sum?_of_lt hbound]
    rfl

theorem continuesChecked_eq (hfiles : ∀ f ∈ files, f.Backed d) (hb : b.Placed files)
    (file offset : Nat) : continuesChecked b file offset = some (continues b file offset) := by
  unfold continuesChecked continues
  cases hbacking : b.backing with
  | memory data initial => rfl
  | file lastFile lastOffset =>
    obtain ⟨f, -, hsum⟩ := hb.sum?_eq hfiles (Nat.le_refl _) hbacking
    simp only [hsum, Option.map_some]
    cases lastFile == file <;> rfl

theorem pushFileChecked_eq (h : c.Seated files) (hfiles : ∀ f ∈ files, f.Backed d) {size : Nat}
    (hbound : c.size + size < Offset.bound) (file offset : Nat) :
    c.pushFileChecked file offset size = some (c.pushFile file offset size) := by
  unfold pushFileChecked pushFile
  rw [Offset.sum?_of_lt hbound]
  simp only [Option.bind_eq_bind, Option.bind_some]
  cases hlast : c.blocks.getLast? with
  | none => rfl
  | some last =>
    have hmem := List.mem_of_getLast? hlast
    have hfinish := h.joint.finish_le hmem
    unfold Block.finish at hfinish
    simp only [continuesChecked_eq hfiles (h.placed last hmem), Option.bind_some]
    cases continues last file offset with
    | false => rfl
    | true =>
      simp only [if_true, Offset.sum?_of_lt (show last.size + size < Offset.bound by omega)]
      rfl

/-! ## Lookup -/

/-- The first number from `first` up to `last` of a block that ends behind `offset`, or `last`, by
halving the range. -/
def bisect (blocks : List Block) (offset first last : Nat) : Option Nat :=
  if first < last then do
    let b ← blocks[first + (last - first) / 2]?
    let finish ← Offset.sum? b.start b.size
    if finish ≤ offset then bisect blocks offset (first + (last - first) / 2 + 1) last
    else bisect blocks offset first (first + (last - first) / 2)
  else some first
termination_by last - first

/-- The number of the block that holds the byte at `offset`. -/
def findChecked (c : Chain) (offset : Nat) : Option (Option Nat) := do
  let index ← bisect c.blocks offset 0 c.blocks.length
  return if index < c.blocks.length then some index else none

/-- What a suffix of the blocks begins with, by its number. -/
theorem getElem_of_drop (hrest : c.blocks.drop index = b :: rest) :
    ∃ hindex : index < c.blocks.length, c.blocks[index] = b ∧ c.blocks.drop (index + 1) = rest := by
  have hindex : index < c.blocks.length := by
    by_contra hge
    rw [List.drop_eq_nil_of_le (Nat.not_lt.1 hge)] at hrest
    cases hrest
  rw [List.drop_eq_getElem_cons hindex] at hrest
  exact ⟨hindex, List.cons.inj hrest⟩

/-- The blocks are parted at the number that lookup finds. -/
theorem parted_of_find (hfind : c.find? offset = some index) :
    c.blocks.take index = c.blocksBefore offset ∧
      ∃ b rest, c.blocksFrom offset = b :: rest ∧ c.blocks.drop index = b :: rest ∧
        c.blocks[index]? = some b := by
  obtain ⟨hlt, rfl⟩ := List.findIdx?_eq_some_iff_findIdx_eq.1 hfind
  refine ⟨List.takeWhile_eq_take_findIdx_not.symm, _, _, ?_, List.drop_eq_getElem_cons hlt,
    List.getElem?_eq_getElem hlt⟩
  rw [← List.drop_eq_getElem_cons hlt]
  exact List.dropWhile_eq_drop_findIdx_not

theorem Joint.blocks_apart (h : c.Joint) {i j : Nat} {b x : Block} (hlt : i < j)
    (hb : c.blocks[i]? = some b) (hx : c.blocks[j]? = some x) : b.finish ≤ x.start := by
  obtain ⟨hi, rfl⟩ := List.getElem?_eq_some_iff.1 hb
  obtain ⟨hj, rfl⟩ := List.getElem?_eq_some_iff.1 hx
  exact List.pairwise_iff_getElem.1 (List.pairwise_map.1 (EndToEnd.sorted h)) i j hi hj hlt

theorem Joint.find?_eq_none_iff (h : c.Joint) : c.find? offset = none ↔ c.size ≤ offset := by
  rw [find?, List.findIdx?_eq_none_iff, ← h.blocksFrom_eq_nil_iff, Chain.blocksFrom,
    List.dropWhile_eq_nil_iff]
  simp only [Bool.not_eq_false']

/-- Lookup finds the only block that holds the offset. -/
theorem Joint.find?_eq_some_iff (h : c.Joint) :
    c.find? offset = some index ↔ ∃ b, c.blocks[index]? = some b ∧ b.start ≤ offset ∧
      offset < b.finish := by
  constructor
  · intro hfind
    obtain ⟨-, b, rest, hfrom, -, hb⟩ := parted_of_find hfind
    obtain ⟨-, hle, hlt⟩ := h.blocksFrom hfrom
    exact ⟨b, hb, hle, hlt⟩
  · rintro ⟨b, hb, hle, hlt⟩
    have hfinish := h.finish_le (List.mem_of_getElem? hb)
    cases hfind : c.find? offset with
    | none =>
      have := h.find?_eq_none_iff.1 hfind
      omega
    | some other =>
      obtain ⟨-, x, rest, hfrom, -, hx⟩ := parted_of_find hfind
      obtain ⟨-, hle', hlt'⟩ := h.blocksFrom hfrom
      -- of two blocks the first ends where the second starts, or before
      rcases Nat.lt_trichotomy other index with hbefore | rfl | hbehind
      · have := h.blocks_apart hbefore hx hb
        omega
      · rfl
      · have := h.blocks_apart hbehind hb hx
        omega

/-- Where the ends of the blocks rise, halving finds the first block that ends behind the offset. -/
theorem bisect_eq
    (hrise : ∀ (i j : Nat) (b x : Block), i ≤ j → blocks[i]? = some b → blocks[j]? = some x →
      b.finish ≤ x.finish)
    (hbound : ∀ b ∈ blocks, b.finish < Offset.bound) (hle : first ≤ last)
    (hlast : last ≤ blocks.length)
    (hbefore : ∀ (i : Nat) (b : Block), i < first → blocks[i]? = some b → b.finish ≤ offset)
    (hbehind : ∀ (i : Nat) (b : Block), last ≤ i → blocks[i]? = some b → offset < b.finish) :
    bisect blocks offset first last = some (blocks.findIdx fun b => !ends offset b) := by
  induction hn : last - first using Nat.strong_induction_on generalizing first last with
  | _ n ih =>
    rw [bisect]
    by_cases hlt : first < last
    · have hmiddle : first ≤ first + (last - first) / 2 ∧ first + (last - first) / 2 < last := by
        omega
      rw [if_pos hlt]
      generalize first + (last - first) / 2 = middle at hmiddle ⊢
      obtain ⟨hfirst, hless⟩ := hmiddle
      obtain ⟨b, hb⟩ : ∃ b, blocks[middle]? = some b := ⟨_, List.getElem?_eq_getElem (by omega)⟩
      have hfinish : Offset.sum? b.start b.size = some b.finish :=
        Offset.sum?_of_lt (hbound b (List.mem_of_getElem? hb))
      simp only [hb, hfinish, Option.bind_eq_bind, Option.bind_some]
      by_cases hends : b.finish ≤ offset
      · rw [if_pos hends]
        refine ih (last - (middle + 1)) (by omega) hless hlast (fun i x hi hx => ?_) hbehind rfl
        exact (hrise i middle x b (by omega) hx hb).trans hends
      · rw [if_neg hends]
        refine ih (middle - first) (by omega) hfirst (by omega) hbefore (fun i x hi hx => ?_) rfl
        exact (Nat.not_le.1 hends).trans_le (hrise middle i b x hi hb hx)
    -- all blocks before this number end at the offset or before, and those from it on do not
    · obtain rfl : first = last := by omega
      rw [if_neg hlt]
      have hfront : ∀ (i : Nat) (hi : i < blocks.length), i < first →
          (!ends offset blocks[i]) = false := fun i hi hlt => by
        rw [ends, decide_eq_true (hbefore i _ hlt (List.getElem?_eq_getElem hi))]
        rfl
      rcases Nat.lt_or_eq_of_le hlast with hinside | rfl
      · refine congrArg some (((List.findIdx_eq hinside).2 ⟨?_, fun i hi => ?_⟩).symm)
        · have hpast := hbehind first _ (Nat.le_refl _) (List.getElem?_eq_getElem hinside)
          rw [ends, decide_eq_false (Nat.not_le.2 hpast)]
          rfl
        · exact hfront i (by omega) hi
      · refine congrArg some (List.findIdx_eq_length.2 fun x hx => ?_).symm
        obtain ⟨i, hi, rfl⟩ := List.getElem_of_mem hx
        exact hfront i hi hi

/-- Halving finds what lookup finds. -/
theorem Joint.bisect_eq (h : c.Joint) (hsize : c.size < Offset.bound) (offset : Nat) :
    bisect c.blocks offset 0 c.blocks.length =
      some (c.blocks.findIdx fun b => !ends offset b) := by
  refine Chain.bisect_eq (fun i j b x hij hb hx => ?_)
    (fun b hb => (h.finish_le hb).trans_lt hsize) (Nat.zero_le _) (Nat.le_refl _)
    (fun i b hi => by omega) (fun i b hi hb => ?_)
  · rcases Nat.lt_or_eq_of_le hij with hlt | rfl
    · exact (h.blocks_apart hlt hb hx).trans (Nat.le_add_right _ _)
    · rw [hb] at hx
      cases hx
      exact Nat.le_refl _
  · rw [List.getElem?_eq_none hi] at hb
    cases hb

theorem findChecked_eq (h : c.Joint) (hsize : c.size < Offset.bound) (offset : Nat) :
    c.findChecked offset = some (c.find? offset) := by
  unfold findChecked find?
  rw [h.bisect_eq hsize, Option.bind_eq_bind, Option.bind_some]
  split
  · next hlt => exact congrArg some (List.findIdx?_eq_some_iff_findIdx_eq.2 ⟨hlt, rfl⟩).symm
  · next hle =>
    exact congrArg some (List.findIdx?_eq_none_iff_findIdx_eq.2
      (Nat.le_antisymm List.findIdx_le_length (Nat.not_lt.1 hle))).symm

/-- Lookup comes to the end of the chain, or to the block at which the walk begins. -/
theorem Joint.lookup_cases (h : c.Joint) (hsize : c.size < Offset.bound) (offset : Nat) :
    (c.findChecked offset = some none ∧ c.blocksFrom offset = []) ∨
      ∃ index, c.findChecked offset = some (some index) ∧ c.find? offset = some index := by
  rw [findChecked_eq h hsize]
  cases hfind : c.find? offset with
  | none => exact .inl ⟨rfl, h.blocksFrom_eq_nil_iff.2 (h.find?_eq_none_iff.1 hfind)⟩
  | some index => exact .inr ⟨index, rfl, rfl⟩

/-- The block that lookup finds, and those behind it: what a loop from there on meets. -/
structure Found (c : Chain) (files : List TempFile) (offset index : Nat) (b : Block)
    (rest : List Block) : Prop where
  block : c.blocks[index]? = some b
  before : c.blocks.take index = c.blocksBefore offset
  blocksFrom : c.blocksFrom offset = b :: rest
  drop : c.blocks.drop index = b :: rest
  placed : ∀ x ∈ b :: rest, x.Placed files
  ends : EndToEnd b.start ((b :: rest).map Block.span) c.size
  start_le : b.start ≤ offset
  inside : ∀ x, (b :: rest).head? = some x → offset - b.start ≤ x.size

theorem Seated.found (h : c.Seated files) (hfind : c.find? offset = some index) :
    ∃ b rest, c.Found files offset index b rest := by
  obtain ⟨hbefore, b, rest, hfrom, hdrop, hb⟩ := parted_of_find hfind
  obtain ⟨hends, hle, hlt⟩ := h.joint.blocksFrom hfrom
  refine ⟨b, rest, hb, hbefore, hfrom, hdrop, fun x hx => ?_, hends, hle, ?_⟩
  · exact h.placed x (mem_of_mem_blocksFrom (hfrom ▸ hx))
  · rintro x ⟨⟩
    unfold Block.finish at hlt
    omega

/-! ## Views -/

/-- The bytes `[offset, offset + size)`, if one memory block holds them all. -/
def inMemoryChecked (c : Chain) (offset size : Nat) : Option (Option (List UInt8)) := do
  match ← c.findChecked offset with
  | none => return none
  | some index =>
    let b ← c.blocks[index]?
    let place ← Offset.difference? offset b.start
    b.viewChecked place size

/-- Stores bytes into that view, over its start and as many as fit. -/
def storeInMemoryChecked (c : Chain) (offset size : Nat) (bytes : List UInt8) :
    Option (Option Chain) := do
  match ← c.findChecked offset with
  | none => return none
  | some index =>
    let b ← c.blocks[index]?
    let place ← Offset.difference? offset b.start
    let stored ← b.storeChecked place size bytes
    return stored.map fun b => { c with blocks := c.blocks.set index b }

/-- Tries block number `index` at `place`, and those that follow from their starts on, for a view of
`size` bytes that ends at or before `limit`. -/
def windowLoop (c : Chain) (size limit index place : Nat) : Option (Option Nat) :=
  match Offset.sum? place size with
  | none => some none
  | some last =>
    if last ≤ limit then
      if hindex : index < c.blocks.length then do
        let inside ← Offset.difference? place c.blocks[index].start
        match ← c.blocks[index].viewChecked inside size with
        | some _ => return some place
        | none =>
          let finish ← Offset.sum? c.blocks[index].start c.blocks[index].size
          c.windowLoop size limit (index + 1) finish
      else some none
    else some none
termination_by c.blocks.length - index

/-- The first offset in `[start, limit)` where `size` bytes lie in one memory block before
`limit`. -/
def findMemoryChecked (c : Chain) (start limit size : Nat) : Option (Option Nat) := do
  match ← c.findChecked start with
  | none => return none
  | some index => c.windowLoop size limit index start

/-- No block is longer than the chain. -/
theorem Joint.size_lt (h : c.Joint) (hbound : c.size < Offset.bound) (hb : b ∈ c.blocks) :
    b.size < Offset.bound := by
  have hfinish := h.finish_le hb
  unfold Block.finish at hfinish
  omega

theorem inMemoryChecked_eq (h : c.Joint) (hfilled : ∀ b ∈ c.blocks, b.Filled)
    (hbound : c.size < Offset.bound) (offset size : Nat) :
    c.inMemoryChecked offset size = some (c.inMemory? offset size) := by
  unfold inMemoryChecked inMemory?
  rcases h.lookup_cases hbound offset with ⟨hlookup, hfrom⟩ | ⟨index, hlookup, hfind⟩
  · rw [hlookup, hfrom]
    rfl
  · obtain ⟨-, b, rest, hfrom, -, hb⟩ := parted_of_find hfind
    obtain ⟨-, hle, -⟩ := h.blocksFrom hfrom
    simp only [hlookup, hb, hfrom, Option.bind_eq_bind, Option.bind_some,
      Offset.difference?_of_le hle]
    have hmem := List.mem_of_getElem? hb
    exact Block.viewChecked_eq (hfilled b hmem) (h.size_lt hbound hmem) _ _

theorem storeInMemoryChecked_eq (h : c.Joint) (hfilled : ∀ b ∈ c.blocks, b.Filled)
    (hbound : c.size < Offset.bound) (offset size : Nat) (bytes : List UInt8) :
    c.storeInMemoryChecked offset size bytes = some (c.storeInMemory? offset size bytes) := by
  unfold storeInMemoryChecked storeInMemory?
  rcases h.lookup_cases hbound offset with ⟨hlookup, hfrom⟩ | ⟨index, hlookup, hfind⟩
  · rw [hlookup, hfrom]
    rfl
  · obtain ⟨hbefore, b, rest, hfrom, hdrop, hb⟩ := parted_of_find hfind
    obtain ⟨hindex, -, hrest⟩ := getElem_of_drop hdrop
    obtain ⟨-, hle, -⟩ := h.blocksFrom hfrom
    have hmem := List.mem_of_getElem? hb
    have hset : ∀ x, c.blocks.set index x = c.blocksBefore offset ++ x :: rest := fun x => by
      rw [List.set_eq_take_append_cons_drop, if_pos hindex, hbefore, hrest]
    simp only [hlookup, hb, hfrom, Option.bind_eq_bind, Option.bind_some,
      Offset.difference?_of_le hle]
    cases hbacking : b.backing with
    | file file place =>
      simp only [Block.storeChecked, hbacking]
      rfl
    | memory data initial =>
      rw [Block.storeChecked_eq (hfilled b hmem) (h.size_lt hbound hmem) hbacking, Option.bind_some]
      simp only [apply_ite (Option.map _), Option.map_some, Option.map_none, hset]
      rfl

theorem windowLoop_eq (h : c.Joint) (hfilled : ∀ b ∈ c.blocks, b.Filled)
    (hbound : c.size < Offset.bound) (size limit : Nat) (hrest : c.blocks.drop index = rest)
    (hends : EndToEnd start (rest.map Block.span) c.size) (hstart : start ≤ place) :
    c.windowLoop size limit index place = some (findWindow size limit rest place) := by
  induction rest generalizing index start place with
  | nil =>
    rw [windowLoop, findWindow, dif_neg (Nat.not_lt.2 (List.drop_eq_nil_iff.1 hrest))]
    cases Offset.sum? place size with
    | none => rfl
    | some last => exact ite_self _
  | cons b rest ih =>
    obtain ⟨hindex, hb, hdrop⟩ := getElem_of_drop hrest
    obtain ⟨rfl, hends'⟩ := hends
    have hmem : b ∈ c.blocks := hb ▸ List.getElem_mem hindex
    rw [windowLoop, findWindow]
    cases Offset.sum? place size with
    | none => rfl
    | some last =>
      simp only [dif_pos hindex, hb, Offset.difference?_of_le (show b.start ≤ place from hstart),
        Block.viewChecked_eq (hfilled b hmem) (h.size_lt hbound hmem), Option.bind_eq_bind,
        Option.bind_some]
      by_cases hlast : last ≤ limit
      · rw [if_pos hlast, if_pos hlast]
        cases hwindow : b.window? (place - b.start) size with
        | some data => rfl
        | none =>
          have hfinish := (h.finish_le hmem).trans_lt hbound
          simp only [Option.map_none, Option.isSome_none, Bool.false_eq_true, if_false,
            Offset.sum?_of_lt hfinish, Option.bind_some]
          exact ih hdrop hends' (Nat.le_refl _)
      · rw [if_neg hlast, if_neg hlast]

theorem findMemoryChecked_eq (h : c.Joint) (hfilled : ∀ b ∈ c.blocks, b.Filled)
    (hbound : c.size < Offset.bound) (start limit size : Nat) :
    c.findMemoryChecked start limit size = some (c.findMemory? start limit size) := by
  unfold findMemoryChecked findMemory?
  rcases h.lookup_cases hbound start with ⟨hlookup, hfrom⟩ | ⟨index, hlookup, hfind⟩
  · rw [hlookup, hfrom]
    rfl
  · obtain ⟨-, b, rest, hfrom, hdrop, -⟩ := parted_of_find hfind
    obtain ⟨hends, hle, -⟩ := h.blocksFrom hfrom
    rw [hlookup, hfrom]
    exact windowLoop_eq h hfilled hbound size limit hdrop hends hle

/-! ## Reading -/

/-- Reads from block number `index` on, beginning `place` bytes into it, until `done` has grown to
`length`. -/
def readLoop (c : Chain) (files : List TempFile) (d : Disk) (overrun : Failure)
    (length index place done : Nat) : Option Transfer :=
  if done < length then
    if hindex : index < c.blocks.length then do
      let room ← Offset.difference? length done
      let (n, part) ← c.blocks[index].readChecked files d place room
      match part.stopped with
      | some _ => return part
      | none =>
        let done ← Offset.sum? done n
        let rest ← readLoop c files d overrun length (index + 1) 0 done
        return part.followedBy rest
    else some (.refused overrun)
  else some (.whole [])
termination_by c.blocks.length - index

/-- Reads `length` bytes from `offset` on. -/
def readChecked (c : Chain) (files : List TempFile) (d : Disk) (offset length : Nat) :
    Option Transfer :=
  let overrun := Failure.outOfBounds offset length c.size
  if length = 0 then some (.whole [])
  else do
    match ← c.findChecked offset with
    | none => return .refused overrun
    | some index =>
      let b ← c.blocks[index]?
      let place ← Offset.difference? offset b.start
      c.readLoop files d overrun length index place 0

theorem readLoop_eq (hfiles : ∀ f ∈ files, f.Backed d) (hsize : c.size < Offset.bound)
    {length : Nat} (hplaced : ∀ b ∈ rest, b.Placed files) (hrest : c.blocks.drop index = rest)
    (hends : EndToEnd start (rest.map Block.span) c.size)
    (hplace : ∀ b, rest.head? = some b → place ≤ b.size) (hdone : done ≤ start + place) :
    c.readLoop files d overrun length index place done =
      some (readAlong files d overrun rest place (length - done)) := by
  induction rest generalizing index start place done with
  | nil =>
    rw [readLoop, readAlong]
    by_cases hmore : done < length
    · rw [if_pos hmore, dif_neg (Nat.not_lt.2 (List.drop_eq_nil_iff.1 hrest)), if_neg (by omega)]
      rfl
    · rw [if_neg hmore, if_pos (by omega)]
      rfl
  | cons b rest ih =>
    obtain ⟨hindex, hb, hdrop⟩ := getElem_of_drop hrest
    obtain ⟨hstart, hends'⟩ := hends
    have hplacedb := hplaced b List.mem_cons_self
    have hinside := hplace b rfl
    have hfinish : start + b.size ≤ c.size := hstart ▸ hends'.le
    rw [readLoop, readAlong]
    by_cases hmore : done < length
    · have hn : min (b.size - place) (length - done) ≤ b.size - place := Nat.min_le_left _ _
      rw [if_pos hmore, dif_pos hindex, if_neg (by omega), hb,
        Offset.difference?_of_le (Nat.le_of_lt hmore)]
      simp only [Option.bind_eq_bind, Option.bind_some,
        Block.readChecked_eq hfiles hplacedb hinside (by omega)]
      generalize min (b.size - place) (length - done) = n at hn ⊢
      rw [Block.read_spec hfiles hplacedb (by omega)]
      simp only [Transfer.whole, Offset.sum?_of_lt (show done + n < Offset.bound by omega),
        Option.bind_some]
      rw [ih (fun x hx => hplaced x (List.mem_cons_of_mem _ hx)) hdrop hends'
        (fun _ _ => Nat.zero_le _) (by
          simp only [Block.span, Segment.finish] at hstart ⊢
          omega), Nat.sub_sub]
      rfl
    · rw [if_neg hmore, if_pos (by omega)]

theorem readChecked_eq (h : c.Seated files) (hfiles : ∀ f ∈ files, f.Backed d)
    (hsize : c.size < Offset.bound) (offset length : Nat) :
    c.readChecked files d offset length = some (c.read files d offset length) := by
  unfold readChecked read
  by_cases hzero : length = 0
  · rw [if_pos hzero, if_pos hzero]
  · rw [if_neg hzero, if_neg hzero]
    rcases h.joint.lookup_cases hsize offset with ⟨hlookup, hfrom⟩ | ⟨index, hlookup, hfind⟩
    · rw [hlookup, hfrom]
      rfl
    · obtain ⟨b, rest, hfound⟩ := h.found hfind
      simp only [hlookup, hfound.block, hfound.blocksFrom, Option.bind_eq_bind, Option.bind_some,
        Offset.difference?_of_le hfound.start_le]
      rw [readLoop_eq hfiles hsize hfound.placed hfound.drop hfound.ends hfound.inside
        (Nat.zero_le _), Nat.sub_zero]

/-! ## Writing -/

/-- Writes to block number `index` and those that follow, beginning `place` bytes into it, until
`done` has grown to the number of the bytes. -/
def writeLoop (files : List TempFile) (overrun : Failure) (bytes : List UInt8) (c : Chain)
    (d : Disk) (index place done : Nat) : Option (Outcome (Chain × Disk) Unit) :=
  if done < bytes.length then
    if hindex : index < c.blocks.length then do
      let _ ← Offset.difference? bytes.length done
      let (n, part) ← c.blocks[index].writeChecked files d place (bytes.drop done)
      let written : Chain := { c with blocks := c.blocks.set index part.state.1 }
      match part.answer with
      | .error f => return .fail (written, part.state.2) f
      | .ok () =>
        let done ← Offset.sum? done n
        writeLoop files overrun bytes written part.state.2 (index + 1) 0 done
    else some (.fail (c, d) overrun)
  else some (.ok (c, d) ())
termination_by c.blocks.length - index
decreasing_by
  simp only [List.length_set]
  omega

/-- Writes `bytes` from `offset` on. -/
def writeChecked (c : Chain) (files : List TempFile) (d : Disk) (offset : Nat)
    (bytes : List UInt8) : Option (Outcome (Chain × Disk) Unit) :=
  let overrun := Failure.outOfBounds offset bytes.length c.size
  if bytes.isEmpty then some (.ok (c, d) ())
  else do
    match ← c.findChecked offset with
    | none => return .fail (c, d) overrun
    | some index =>
      let b ← c.blocks[index]?
      let place ← Offset.difference? offset b.start
      writeLoop files overrun bytes c d index place 0

theorem writeLoop_eq (hnodup : (files.map TempFile.handle).Nodup) (hsize : c.size < Offset.bound)
    {bytes : List UInt8} (hplaced : ∀ b ∈ rest, b.Placed files)
    (hfiles : ∀ f ∈ files, f.Backed d) (hrest : c.blocks.drop index = rest)
    (hends : EndToEnd start (rest.map Block.span) c.size)
    (hplace : ∀ b, rest.head? = some b → place ≤ b.size) (hdone : done ≤ start + place) :
    writeLoop files overrun bytes c d index place done =
      some ((writeAlong files overrun rest d place (bytes.drop done)).onState
        fun (blocks, d) => ({ c with blocks := c.blocks.take index ++ blocks }, d)) := by
  have hsplit : c.blocks.take index ++ rest = c.blocks := by
    rw [← hrest, List.take_append_drop]
  induction rest generalizing c d index start place done with
  | nil =>
    have hall : c.blocks.take index = c.blocks := by
      rwa [List.append_nil] at hsplit
    rw [writeLoop, writeAlong]
    by_cases hmore : done < bytes.length
    · rw [if_pos hmore, dif_neg (Nat.not_lt.2 (List.drop_eq_nil_iff.1 hrest)), if_neg]
      · simp only [Outcome.fail, Outcome.onState, List.append_nil, hall]
      · simpa using hmore
    · rw [if_neg hmore, if_pos]
      · simp only [Outcome.ok, Outcome.onState, List.append_nil, hall]
      · simpa using hmore
  | cons b rest ih =>
    obtain ⟨hindex, hb, hdrop⟩ := getElem_of_drop hrest
    obtain ⟨hstart, hends'⟩ := hends
    have hplacedb := hplaced b List.mem_cons_self
    have hinside := hplace b rfl
    have hfinish : start + b.size ≤ c.size := hstart ▸ hends'.le
    rw [writeLoop, writeAlong]
    by_cases hmore : done < bytes.length
    · have hn : min (b.size - place) (bytes.drop done).length ≤ b.size - place :=
        Nat.min_le_left _ _
      have hnonempty : ¬ (bytes.drop done).isEmpty = true := by simpa using hmore
      rw [if_pos hmore, dif_pos hindex, if_neg hnonempty, hb,
        Offset.difference?_of_le (Nat.le_of_lt hmore)]
      simp only [Option.bind_eq_bind, Option.bind_some,
        Block.writeChecked_eq hfiles hplacedb hinside (by omega)]
      have hlength : (bytes.drop done).length = bytes.length - done := List.length_drop
      generalize min (b.size - place) (bytes.drop done).length = n at hn ⊢
      have hfits : place + ((bytes.drop done).take n).length ≤ b.size := by
        rw [List.length_take]
        omega
      obtain ⟨b', d', hwrite, -, -, -, hrewritten⟩ :=
        Block.write_spec hfiles hnodup hplacedb hfits
      simp only [hwrite, Outcome.ok, Offset.sum?_of_lt (show done + n < Offset.bound by omega),
        Option.bind_some]
      -- the next block is the one behind, and the one written is in its place
      have hbehind : (c.blocks.set index b').drop (index + 1) = rest := by
        rw [List.drop_set_of_lt (Nat.lt_succ_self index), hdrop]
      have hfront : (c.blocks.set index b').take (index + 1) = c.blocks.take index ++ [b'] := by
        have hlt : index < (c.blocks.set index b').length := by rwa [List.length_set]
        rw [← List.take_append_getElem hlt, List.getElem_set_self,
          List.take_set_of_le (Nat.le_refl index)]
      rw [ih (c := { c with blocks := c.blocks.set index b' }) hsize
        (fun x hx => hplaced x (List.mem_cons_of_mem _ hx))
        (fun f hf => hrewritten.backed f hf (hfiles f hf)) hbehind hends'
        (fun _ _ => Nat.zero_le _) (by
          simp only [Block.span, Segment.finish] at hstart ⊢
          omega) (by rw [← hbehind, List.take_append_drop]), List.drop_drop]
      simp only [Outcome.onState, hfront, List.append_assoc, List.singleton_append]
    · have hempty : (bytes.drop done).isEmpty = true := by simpa using hmore
      rw [if_neg hmore, if_pos hempty]
      simp only [Outcome.ok, Outcome.onState, hsplit]

theorem writeChecked_eq (h : c.Seated files) (hnodup : (files.map TempFile.handle).Nodup)
    (hfiles : ∀ f ∈ files, f.Backed d) (hsize : c.size < Offset.bound) (offset : Nat)
    (bytes : List UInt8) :
    c.writeChecked files d offset bytes = some (c.write files d offset bytes) := by
  unfold writeChecked write
  by_cases hempty : bytes.isEmpty = true
  · rw [if_pos hempty, if_pos hempty]
  · rw [if_neg hempty, if_neg hempty]
    rcases h.joint.lookup_cases hsize offset with ⟨hlookup, hfrom⟩ | ⟨index, hlookup, hfind⟩
    · rw [hlookup, hfrom]
      rfl
    · obtain ⟨b, rest, hfound⟩ := h.found hfind
      simp only [hlookup, hfound.block, hfound.blocksFrom, Option.bind_eq_bind, Option.bind_some,
        Offset.difference?_of_le hfound.start_le]
      rw [writeLoop_eq hnodup hsize hfound.placed hfiles hfound.drop hfound.ends hfound.inside
        (Nat.zero_le _), hfound.before, List.drop_zero]

/-- No check fails in a view of the chain, in a store into one, in reading or in writing. -/
structure InRange (c : Chain) (files : List TempFile) (d : Disk) : Prop where
  view : ∀ offset size, c.inMemoryChecked offset size = some (c.inMemory? offset size)
  store : ∀ offset size bytes,
    c.storeInMemoryChecked offset size bytes = some (c.storeInMemory? offset size bytes)
  read : ∀ offset length,
    c.readChecked files d offset length = some (c.read files d offset length)
  write : ∀ offset bytes,
    c.writeChecked files d offset bytes = some (c.write files d offset bytes)

theorem Seated.inRange (h : c.Seated files) (hnodup : (files.map TempFile.handle).Nodup)
    (hfiles : ∀ f ∈ files, f.Backed d) (hsize : c.size < Offset.bound) : c.InRange files d where
  view := inMemoryChecked_eq h.joint h.buffers hsize
  store := storeInMemoryChecked_eq h.joint h.buffers hsize
  read := readChecked_eq h hfiles hsize
  write := writeChecked_eq h hnodup hfiles hsize

end Chain

end SpillStorage
