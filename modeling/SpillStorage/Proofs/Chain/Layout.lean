import SpillStorage.Chain
import SpillStorage.Segment
import SpillStorage.Proofs.Offset
import SpillStorage.Proofs.SpillFiles

/-!
The layout of a chain: which range of the address space each block covers, and which range of which
file stands behind it.

What is proved:
  1. `Seated.pushMemory` and `Seated.pushFile`: appending a block keeps blocks and extents end to
     end, whether the last block is lengthened or a new one is made, and be it empty.
  2. `Layout.pushMemory` and `Layout.pushFile`: as long as no empty extent is appended, no block is
     empty.
  3. `Seated.of_outline` and `Layout.of_outline`: neither looks at the bytes that the buffers hold.
  4. `outline_write` and `outline_storeInMemory?`: writing changes nothing but the bytes that the
     buffers hold, so it keeps both.

Two blocks never share a byte of a file: for each file, the extents of its blocks lie end to end in
the order of the chain.
-/

namespace SpillStorage

/-- Segments end to end from `start` to `finish`; some may be empty. -/
def EndToEnd (start : Nat) : List Segment → Nat → Prop
  | [], finish => start = finish
  | s :: rest, finish => s.position = start ∧ EndToEnd s.finish rest finish

namespace EndToEnd

variable {xs ys : List Segment} {s : Segment} {start middle finish : Nat}

theorem append_iff : EndToEnd start (xs ++ ys) finish ↔
    ∃ middle, EndToEnd start xs middle ∧ EndToEnd middle ys finish := by
  induction xs generalizing start with
  | nil => simp [EndToEnd]
  | cons x rest ih => simp only [List.cons_append, EndToEnd, ih, exists_and_left, and_assoc]

theorem concat (h : EndToEnd start xs middle) (size : Nat) :
    EndToEnd start (xs ++ [⟨middle, size⟩]) (middle + size) :=
  append_iff.2 ⟨middle, h, rfl, rfl⟩

/-- The last segment can be lengthened. -/
theorem lengthen (h : EndToEnd start (xs ++ [s]) finish) (size : Nat) :
    EndToEnd start (xs ++ [⟨s.position, s.size + size⟩]) (finish + size) := by
  obtain ⟨middle, hfront, hposition, hfinish⟩ := append_iff.1 h
  have hend : s.position + s.size = finish := hfinish
  refine append_iff.2 ⟨middle, hfront, hposition, ?_⟩
  rw [← hend, Nat.add_assoc]
  rfl

theorem total (h : EndToEnd start xs finish) :
    start + Offset.total (xs.map Segment.size) = finish := by
  induction xs generalizing start with
  | nil => exact h
  | cons x rest ih =>
    obtain ⟨hposition, hrest⟩ := h
    have := ih hrest
    rw [List.map_cons, Offset.total]
    unfold Segment.finish at this
    omega

theorem le (h : EndToEnd start xs finish) : start ≤ finish := by
  have := h.total
  omega

theorem bounds (h : EndToEnd start xs finish) :
    ∀ s ∈ xs, start ≤ s.position ∧ s.finish ≤ finish := by
  induction xs generalizing start with
  | nil => simp
  | cons x rest ih =>
    obtain ⟨hposition, hrest⟩ := h
    intro s hs
    rcases List.mem_cons.1 hs with rfl | hs
    · exact ⟨Nat.le_of_eq hposition.symm, hrest.le⟩
    · obtain ⟨hle, hfinish⟩ := ih hrest s hs
      unfold Segment.finish at hle
      exact ⟨by omega, hfinish⟩

/-- A segment ends where a later one starts, or before. -/
theorem sorted (h : EndToEnd start xs finish) :
    xs.Pairwise fun s t => s.finish ≤ t.position := by
  induction xs generalizing start with
  | nil => exact .nil
  | cons x rest ih =>
    obtain ⟨-, hrest⟩ := h
    exact List.pairwise_cons.2 ⟨fun t ht => (hrest.bounds t ht).1, ih hrest⟩

end EndToEnd

/-- Segments end to end from `start` to `finish`, none of them empty. -/
def Tiles (start : Nat) : List Segment → Nat → Prop
  | [], finish => start = finish
  | s :: rest, finish => s.position = start ∧ 0 < s.size ∧ Tiles s.finish rest finish

theorem tiles_iff {xs : List Segment} {start finish : Nat} :
    Tiles start xs finish ↔ EndToEnd start xs finish ∧ ∀ s ∈ xs, 0 < s.size := by
  induction xs generalizing start with
  | nil => simp [Tiles, EndToEnd]
  | cons x rest ih =>
    simp only [Tiles, EndToEnd, ih, List.forall_mem_cons]
    constructor
    · rintro ⟨hposition, hsize, hrest, hsizes⟩
      exact ⟨⟨hposition, hrest⟩, hsize, hsizes⟩
    · rintro ⟨⟨hposition, hrest⟩, hsize, hsizes⟩
      exact ⟨hposition, hsize, hrest, hsizes⟩

theorem Tiles.endToEnd {xs : List Segment} {start finish : Nat} (h : Tiles start xs finish) :
    EndToEnd start xs finish := (tiles_iff.1 h).1

theorem Tiles.concat {xs : List Segment} {start middle size : Nat} (h : Tiles start xs middle)
    (hsize : 0 < size) : Tiles start (xs ++ [⟨middle, size⟩]) (middle + size) := by
  obtain ⟨hends, hsizes⟩ := tiles_iff.1 h
  exact tiles_iff.2 ⟨hends.concat size,
    List.forall_mem_append.2 ⟨hsizes, List.forall_mem_singleton.2 hsize⟩⟩

namespace Block

/-- What the block covers of the address space. -/
def span (b : Block) : Segment := ⟨b.start, b.size⟩

/-- What the block covers of a file, if it lies in that file. -/
def extent? (b : Block) (place : Nat) : Option Segment :=
  match b.backing with
  | .memory _ _ => none
  | .file file offset => if file = place then some ⟨offset, b.size⟩ else none

theorem extent?_eq_some_iff {b : Block} {place : Nat} {s : Segment} :
    b.extent? place = some s ↔ ∃ offset, b.backing = .file place offset ∧ s = ⟨offset, b.size⟩ := by
  unfold extent?
  cases b.backing with
  | memory data initial => simp
  | file file offset =>
    by_cases heq : file = place
    · simp [heq, eq_comm]
    · simp [heq]

/-- The buffer of the block, if it lies in memory, has the size of the block. -/
def Filled (b : Block) : Prop :=
  ∀ data initial, b.backing = .memory data initial → data.size = b.size

theorem filled_memory (start : Nat) (data : Buffer) (initial : Bool) :
    Filled ⟨start, data.size, .memory data initial⟩ := by
  rintro _ _ ⟨⟩
  rfl

/-- A block without a buffer has nothing to be filled. -/
theorem filled_of_file {b : Block} {file offset : Nat} (h : b.backing = .file file offset) :
    b.Filled := by
  intro data initial hmemory
  rw [h] at hmemory
  cases hmemory

/-- The block with its buffer, if it has one, forgotten but for its size. -/
def outline (b : Block) : Block :=
  match b.backing with
  | .memory data initial => { b with backing := .memory (Buffer.zeros data.size) initial }
  | .file _ _ => b

@[simp] theorem outline_start (b : Block) : b.outline.start = b.start := by
  unfold outline
  split <;> rfl

@[simp] theorem outline_size (b : Block) : b.outline.size = b.size := by
  unfold outline
  split <;> rfl

@[simp] theorem outline_isMemory (b : Block) : b.outline.isMemory = b.isMemory := by
  obtain ⟨start, size, backing⟩ := b
  cases backing <;> rfl

@[simp] theorem outline_isInitial (b : Block) : b.outline.isInitial = b.isInitial := by
  obtain ⟨start, size, backing⟩ := b
  cases backing <;> rfl

@[simp] theorem span_outline (b : Block) : b.outline.span = b.span := by
  simp only [span, outline_start, outline_size]

@[simp] theorem extent?_outline (b : Block) (place : Nat) :
    b.outline.extent? place = b.extent? place := by
  obtain ⟨start, size, backing⟩ := b
  cases backing <;> rfl

theorem filled_outline {b : Block} : b.outline.Filled ↔ b.Filled := by
  obtain ⟨start, size, backing⟩ := b
  cases backing with
  | memory data initial => simp [Filled, outline, Buffer.zeros]
  | file file offset => rfl

end Block

namespace Chain

/-- The parts of a file that blocks stand for, in the order of the blocks. -/
def extents (c : Chain) (place : Nat) : List Segment := c.blocks.filterMap (·.extent? place)

/-- The blocks of a chain lie end to end. -/
def Joint (c : Chain) : Prop := EndToEnd 0 (c.blocks.map Block.span) c.size

/-- The blocks lie end to end, buffers have the size of their block, and the blocks in each file lie
end to end over what is claimed in it. Some may be empty, but none lies in a file that there is not.
-/
structure Seated (c : Chain) (files : List TempFile) : Prop where
  joint : c.Joint
  buffers : ∀ b ∈ c.blocks, b.Filled
  extents : ∀ place, EndToEnd 0 (c.extents place) (sizeAt files place)
  present : ∀ place, files.length ≤ place → c.extents place = []

/-- The blocks tile the address space, buffers have the size of their block, only the first can be
the caller's, and the blocks in each file tile what is claimed in it. -/
structure Layout (c : Chain) (files : List TempFile) : Prop where
  spans : Tiles 0 (c.blocks.map Block.span) c.size
  buffers : ∀ b ∈ c.blocks, b.Filled
  initial : ∀ b ∈ c.blocks.tail, b.isInitial = false
  extents : ∀ place, Tiles 0 (c.extents place) (sizeAt files place)

variable {c c' : Chain} {files : List TempFile}

/-- In a layout no block is empty, and only the first can be the caller's. -/
theorem layout_iff : c.Layout files ↔ c.Seated files ∧ (∀ b ∈ c.blocks, 0 < b.size) ∧
    ∀ b ∈ c.blocks.tail, b.isInitial = false := by
  constructor
  · rintro ⟨hspans, hbuffers, hinitial, hextents⟩
    refine ⟨⟨hspans.endToEnd, hbuffers, fun place => (hextents place).endToEnd, ?_⟩, ?_, hinitial⟩
    -- what is not empty lies in a file of which something is claimed
    · intro place hplace
      have htiles := tiles_iff.1 (hextents place)
      have hnone : sizeAt files place = 0 := by
        rw [sizeAt, List.getElem?_eq_none hplace]
        rfl
      refine List.eq_nil_iff_forall_not_mem.2 fun s hs => ?_
      have hfinish := (htiles.1.bounds s hs).2
      have hsize := htiles.2 s hs
      unfold Segment.finish at hfinish
      omega
    · intro b hb
      exact (tiles_iff.1 hspans).2 _ (List.mem_map_of_mem hb)
  · rintro ⟨h, hsizes, hinitial⟩
    refine ⟨tiles_iff.2 ⟨h.joint, List.forall_mem_map.2 hsizes⟩, h.buffers, hinitial, ?_⟩
    intro place
    refine tiles_iff.2 ⟨h.extents place, fun s hs => ?_⟩
    obtain ⟨b, hb, hextent⟩ := List.mem_filterMap.1 hs
    obtain ⟨offset, -, rfl⟩ := Block.extent?_eq_some_iff.1 hextent
    exact hsizes b hb

theorem Layout.seated (h : c.Layout files) : c.Seated files := (layout_iff.1 h).1

theorem Layout.joint (h : c.Layout files) : c.Joint := h.seated.joint

theorem seated_empty : Seated empty [] := by
  refine ⟨rfl, by simp [empty], fun place => ?_, fun _ _ => rfl⟩
  simp [sizeAt, Chain.extents, empty, EndToEnd]

theorem layout_empty : Layout empty [] :=
  layout_iff.2 ⟨seated_empty, by simp [empty], by simp [empty]⟩

/-- A block in a file lies in a file that there is. -/
theorem Seated.file_exists (h : c.Seated files) {b : Block} (hb : b ∈ c.blocks) {file offset : Nat}
    (hfile : b.backing = .file file offset) :
    ∃ f, files[file]? = some f ∧ offset + b.size ≤ f.size := by
  have hextent : (⟨offset, b.size⟩ : Segment) ∈ c.extents file :=
    List.mem_filterMap.2 ⟨b, hb, Block.extent?_eq_some_iff.2 ⟨offset, hfile, rfl⟩⟩
  have hle := ((h.extents file).bounds _ hextent).2
  cases hf : files[file]? with
  | none =>
    rw [h.present file (List.getElem?_eq_none_iff.1 hf)] at hextent
    cases hextent
  | some f =>
    simp only [sizeAt, hf, Option.map_some, Option.getD_some] at hle
    exact ⟨f, rfl, hle⟩

theorem Layout.file_exists (h : c.Layout files) {b : Block} (hb : b ∈ c.blocks) {file offset : Nat}
    (hfile : b.backing = .file file offset) :
    ∃ f, files[file]? = some f ∧ offset + b.size ≤ f.size := h.seated.file_exists hb hfile

/-! ## Outlines -/

def outline (c : Chain) : Chain := ⟨c.blocks.map Block.outline, c.size⟩

@[simp] theorem extents_outline (c : Chain) (place : Nat) :
    c.outline.extents place = c.extents place := by
  simp only [Chain.extents, outline, List.filterMap_map]
  exact congrArg (List.filterMap · c.blocks) (funext fun b => b.extent?_outline place)

theorem size_of_outline (h : c'.outline = c.outline) : c'.size = c.size :=
  calc c'.size = c'.outline.size := rfl
    _ = c.outline.size := congrArg Chain.size h
    _ = c.size := rfl

theorem spans_outline (c : Chain) :
    c.outline.blocks.map Block.span = c.blocks.map Block.span := by
  simp [outline, Function.comp_def]

theorem spans_of_outline (h : c'.outline = c.outline) :
    c'.blocks.map Block.span = c.blocks.map Block.span := by
  rw [← spans_outline, h, spans_outline]

/-- What can be told from outlines holds of blocks if it does of those with the same outlines. -/
theorem forall_of_outline {P : Block → Prop} (hP : ∀ b, P b.outline ↔ P b) {xs ys : List Block}
    (heq : ys.map Block.outline = xs.map Block.outline) (h : ∀ b ∈ xs, P b) : ∀ b ∈ ys, P b := by
  intro b hb
  have hmem : b.outline ∈ xs.map Block.outline := heq ▸ List.mem_map_of_mem hb
  obtain ⟨x, hx, hsame⟩ := List.mem_map.1 hmem
  rw [← hP, ← hsame, hP]
  exact h x hx

theorem filled_of_outline (h : c'.outline = c.outline) (hfilled : ∀ b ∈ c.blocks, b.Filled) :
    ∀ b ∈ c'.blocks, b.Filled :=
  forall_of_outline (fun _ => Block.filled_outline) (congrArg blocks h) hfilled

theorem Joint.of_outline (h : c.Joint) (ho : c'.outline = c.outline) : c'.Joint := by
  unfold Joint
  rw [spans_of_outline ho, size_of_outline ho]
  exact h

theorem Seated.of_outline (h : c.Seated files) (ho : c'.outline = c.outline) : c'.Seated files := by
  have hextents : ∀ place, c'.extents place = c.extents place := fun place => by
    rw [← extents_outline, ho, extents_outline]
  refine ⟨h.joint.of_outline ho, filled_of_outline ho h.buffers, fun place => ?_,
    fun place hplace => ?_⟩
  · rw [hextents]
    exact h.extents place
  · rw [hextents]
    exact h.present place hplace

/-- The layout does not depend on what the buffers hold. -/
theorem Layout.of_outline (h : c.Layout files) (ho : c'.outline = c.outline) : c'.Layout files := by
  obtain ⟨hseated, hsizes, hinitial⟩ := layout_iff.1 h
  have hblocks : c'.blocks.map Block.outline = c.blocks.map Block.outline := congrArg blocks ho
  refine layout_iff.2 ⟨hseated.of_outline ho, ?_, ?_⟩
  · exact forall_of_outline (fun b => by rw [b.outline_size]) hblocks hsizes
  · refine forall_of_outline (fun b => by rw [b.outline_isInitial]) ?_ hinitial
    rw [List.map_tail, List.map_tail, hblocks]

@[simp] theorem memoryBytes_outline (c : Chain) (withInitial : Bool) :
    c.outline.memoryBytes withInitial = c.memoryBytes withInitial := by
  simp [memoryBytes, outline, List.filter_map, Function.comp_def]

@[simp] theorem fileBytes_outline (c : Chain) : c.outline.fileBytes = c.fileBytes := by
  simp [fileBytes, outline, List.filter_map, Function.comp_def]

/-! ## Appending memory -/

/-- Only a first block can be the caller's. -/
theorem tail_concat {blocks : List Block} (h : ∀ x ∈ blocks.tail, x.isInitial = false) {b : Block}
    (hb : b.isInitial = true → blocks = []) : ∀ x ∈ (blocks ++ [b]).tail, x.isInitial = false := by
  intro x hx
  by_cases hempty : blocks = []
  · rw [hempty] at hx
    cases hx
  · rw [List.tail_append_of_ne_nil hempty, List.mem_append, List.mem_singleton] at hx
    rcases hx with hx | rfl
    · exact h x hx
    · exact Bool.eq_false_iff.2 fun hi => hempty (hb hi)

theorem pushMemory_of_pos {c : Chain} {data : Buffer} (h : 0 < data.size) (initial : Bool) :
    c.pushMemory data initial =
      ⟨c.blocks ++ [⟨c.size, data.size, .memory data initial⟩], c.size + data.size⟩ := by
  rw [pushMemory, if_neg (by omega)]

/-- A block of the chain with the buffer is an old one, or holds the buffer. -/
theorem mem_pushMemory {data : Buffer} {initial : Bool} {b : Block}
    (hb : b ∈ (c.pushMemory data initial).blocks) :
    b ∈ c.blocks ∨ 0 < data.size ∧ b = ⟨c.size, data.size, .memory data initial⟩ := by
  by_cases hsize : data.size = 0
  · rw [pushMemory, if_pos hsize] at hb
    exact .inl hb
  · rw [pushMemory_of_pos (Nat.pos_of_ne_zero hsize)] at hb
    rcases List.mem_append.1 hb with hb | hb
    · exact .inl hb
    · exact .inr ⟨Nat.pos_of_ne_zero hsize, List.mem_singleton.1 hb⟩

theorem extents_pushMemory (c : Chain) (data : Buffer) (initial : Bool) (place : Nat) :
    (c.pushMemory data initial).extents place = c.extents place := by
  unfold pushMemory
  split
  · rfl
  · simp [Chain.extents, Block.extent?]

theorem filled_pushMemory (h : ∀ b ∈ c.blocks, b.Filled) (data : Buffer) (initial : Bool) :
    ∀ b ∈ (c.pushMemory data initial).blocks, b.Filled := by
  intro b hb
  rcases mem_pushMemory hb with hb | ⟨-, rfl⟩
  · exact h b hb
  · exact Block.filled_memory _ _ _

theorem Joint.pushMemory (h : c.Joint) (data : Buffer) (initial : Bool) :
    Joint (c.pushMemory data initial) := by
  unfold Chain.pushMemory
  split
  · exact h
  · unfold Joint
    rw [List.map_append]
    exact EndToEnd.concat h data.size

theorem Seated.pushMemory (h : c.Seated files) (data : Buffer) (initial : Bool) :
    Seated (c.pushMemory data initial) files := by
  refine ⟨h.joint.pushMemory data initial, filled_pushMemory h.buffers data initial,
    fun place => ?_, fun place hplace => ?_⟩
  · rw [extents_pushMemory]
    exact h.extents place
  · rw [extents_pushMemory]
    exact h.present place hplace

theorem Layout.pushMemory (h : c.Layout files) {data : Buffer} {initial : Bool}
    (hinitial : initial = true → c.blocks = []) : Layout (c.pushMemory data initial) files := by
  obtain ⟨hseated, hsizes, hothers⟩ := layout_iff.1 h
  refine layout_iff.2 ⟨hseated.pushMemory data initial, fun b hb => ?_, ?_⟩
  · rcases mem_pushMemory hb with hb | ⟨hpos, rfl⟩
    · exact hsizes b hb
    · exact hpos
  · unfold Chain.pushMemory
    split
    · exact hothers
    · exact tail_concat hothers hinitial

theorem memoryBytes_pushMemory (c : Chain) (data : Buffer) (initial withInitial : Bool) :
    (c.pushMemory data initial).memoryBytes withInitial =
      c.memoryBytes withInitial + if withInitial || !initial then data.size else 0 := by
  by_cases hsize : data.size = 0
  · rw [pushMemory, if_pos hsize, hsize]
    split <;> rfl
  · rw [pushMemory_of_pos (by omega)]
    cases initial <;> cases withInitial <;>
      simp [memoryBytes, Block.isMemory, Block.isInitial, Offset.total_append, Offset.total]

theorem fileBytes_pushMemory (c : Chain) (data : Buffer) (initial : Bool) :
    (c.pushMemory data initial).fileBytes = c.fileBytes := by
  unfold pushMemory
  split
  · rfl
  · simp [fileBytes, Block.isMemory]

/-! ## Appending an extent of a file -/

/-- The last block is lengthened if the extent goes on where it ends in the same file, and else the
extent makes a block of its own. -/
theorem pushFile_cases (c : Chain) (file offset size : Nat) :
    (∃ front last start, c.blocks = front ++ [last] ∧ last.backing = .file file start ∧
      start + last.size = offset ∧ (c.pushFile file offset size).2 =
        ⟨front ++ [{ last with size := last.size + size }], c.size + size⟩) ∨
    (c.pushFile file offset size).2 =
      ⟨c.blocks ++ [⟨c.size, size, .file file offset⟩], c.size + size⟩ := by
  unfold pushFile
  cases hlast : c.blocks.getLast? with
  | none => exact .inr rfl
  | some last =>
    obtain ⟨front, hfront⟩ := List.getLast?_eq_some_iff.1 hlast
    by_cases hgoes : continues last file offset = true
    · refine .inl ⟨front, last, ?_⟩
      cases hb : last.backing with
      | memory data initial =>
        rw [continues, hb] at hgoes
        cases hgoes
      | file lastFile start =>
        simp only [continues, hb, Bool.and_eq_true, beq_iff_eq] at hgoes
        obtain ⟨rfl, hend⟩ := hgoes
        refine ⟨start, hfront, rfl, hend, ?_⟩
        simp [continues, hb, hend, hfront]
    · exact .inr (by simp only [hgoes, Bool.false_eq_true, if_false])

/-- A block of the chain with the extent is an old one, or ends with the extent. -/
theorem mem_pushFile {file offset size : Nat} {b : Block}
    (hb : b ∈ (c.pushFile file offset size).2.blocks) :
    b ∈ c.blocks ∨ size ≤ b.size ∧ ∃ start, b.backing = .file file start := by
  rcases c.pushFile_cases file offset size with
    ⟨front, last, start, hblocks, hbacking, -, heq⟩ | heq
  · rw [heq] at hb
    rcases List.mem_append.1 hb with hb | hb
    · exact .inl (hblocks ▸ List.mem_append_left _ hb)
    · rw [List.mem_singleton.1 hb]
      exact .inr ⟨Nat.le_add_left _ _, start, hbacking⟩
  · rw [heq] at hb
    rcases List.mem_append.1 hb with hb | hb
    · exact .inl hb
    · rw [List.mem_singleton.1 hb]
      exact .inr ⟨Nat.le_refl _, offset, rfl⟩

theorem filled_pushFile (h : ∀ b ∈ c.blocks, b.Filled) (file offset size : Nat) :
    ∀ b ∈ (c.pushFile file offset size).2.blocks, b.Filled := by
  intro b hb
  rcases mem_pushFile hb with hb | ⟨-, start, hbacking⟩
  · exact h b hb
  · exact Block.filled_of_file hbacking

theorem Joint.pushFile (h : c.Joint) (file offset size : Nat) :
    Joint (c.pushFile file offset size).2 := by
  unfold Joint at h ⊢
  rcases c.pushFile_cases file offset size with
    ⟨front, last, start, hblocks, -, -, heq⟩ | heq
  · rw [hblocks, List.map_append] at h
    rw [heq, List.map_append]
    exact h.lengthen size
  · rw [heq, List.map_append]
    exact h.concat size

/-- A block in a file is not the caller's. -/
theorem initial_pushFile (h : ∀ b ∈ c.blocks.tail, b.isInitial = false) (file offset size : Nat) :
    ∀ b ∈ (c.pushFile file offset size).2.blocks.tail, b.isInitial = false := by
  rcases c.pushFile_cases file offset size with
    ⟨front, last, start, hblocks, hbacking, -, heq⟩ | heq
  · rw [hblocks] at h
    rw [heq]
    refine tail_concat (fun x hx => h x ?_) fun hi => ?_
    · cases front with
      | nil => cases hx
      | cons first rest => exact List.mem_append_left _ hx
    · simp only [Block.isInitial, hbacking] at hi
      cases hi
  · rw [heq]
    exact tail_concat h fun hi => by cases hi

/-- The extents of other files are the same. -/
theorem extents_pushFile {file place : Nat} (hne : place ≠ file) (offset size : Nat) :
    (c.pushFile file offset size).2.extents place = c.extents place := by
  have hother : file ≠ place := hne.symm
  rcases c.pushFile_cases file offset size with
    ⟨front, last, start, hblocks, hbacking, -, heq⟩ | heq
  · simp [heq, Chain.extents, hblocks, List.filterMap_append, Block.extent?, hbacking, hother]
  · simp [heq, Chain.extents, List.filterMap_append, Block.extent?, hother]

/-- An extent that starts where those of its file end goes on behind them. -/
theorem endToEnd_pushFile {file offset : Nat} (h : EndToEnd 0 (c.extents file) offset)
    (size : Nat) : EndToEnd 0 ((c.pushFile file offset size).2.extents file) (offset + size) := by
  rcases c.pushFile_cases file offset size with
    ⟨front, last, start, hblocks, hbacking, -, heq⟩ | heq
  · simp only [heq, Chain.extents, hblocks, List.filterMap_append, List.filterMap_cons,
      List.filterMap_nil, Block.extent?, hbacking, if_true] at h ⊢
    exact h.lengthen size
  · simp only [heq, Chain.extents, List.filterMap_append, List.filterMap_cons, List.filterMap_nil,
      Block.extent?, if_true]
    exact h.concat size

section Claims

variable {s s' : SpillFiles} {h h' : Host} {size : Nat} {extent : Extent}

/-- What was claimed lies behind what its file had, so it can be appended. -/
theorem Seated.pushFile (hc : c.Seated s.files) (hclaims : s.Claims h size s' h' extent) :
    Seated (c.pushFile extent.file extent.offset size).2 s'.files := by
  obtain ⟨hoffset, hsizes⟩ := hclaims.sizeAt
  obtain ⟨hlength, hfile⟩ := hclaims.length
  refine ⟨hc.joint.pushFile _ _ _, filled_pushFile hc.buffers _ _ _, fun place => ?_,
    fun place hplace => ?_⟩
  · rw [hsizes]
    split
    · next heq =>
      rw [heq, ← hoffset]
      exact endToEnd_pushFile (hoffset ▸ hc.extents extent.file) size
    · next hne =>
      rw [extents_pushFile hne]
      exact hc.extents place
  · rw [extents_pushFile (by omega)]
    exact hc.present place (by omega)

theorem Layout.pushFile (hc : c.Layout s.files) (hsize : 0 < size)
    (hclaims : s.Claims h size s' h' extent) :
    Layout (c.pushFile extent.file extent.offset size).2 s'.files := by
  obtain ⟨hseated, hsizes, hinitial⟩ := layout_iff.1 hc
  refine layout_iff.2 ⟨hseated.pushFile hclaims, fun b hb => ?_, initial_pushFile hinitial _ _ _⟩
  rcases mem_pushFile hb with hb | ⟨hle, -⟩
  · exact hsizes b hb
  · exact hsize.trans_le hle

end Claims

theorem memoryBytes_pushFile (c : Chain) (file offset size : Nat) (withInitial : Bool) :
    (c.pushFile file offset size).2.memoryBytes withInitial = c.memoryBytes withInitial := by
  rcases c.pushFile_cases file offset size with
    ⟨front, last, start, hblocks, hbacking, -, heq⟩ | heq
  · rw [heq]
    simp [memoryBytes, hblocks, Block.isMemory, hbacking]
  · rw [heq]
    simp [memoryBytes, Block.isMemory]

theorem fileBytes_pushFile (c : Chain) (file offset size : Nat) :
    (c.pushFile file offset size).2.fileBytes = c.fileBytes + size := by
  rcases c.pushFile_cases file offset size with
    ⟨front, last, start, hblocks, hbacking, -, heq⟩ | heq
  · rw [heq]
    simp [fileBytes, hblocks, Block.isMemory, hbacking, Offset.total_append, Offset.total,
      Nat.add_assoc]
  · rw [heq]
    simp [fileBytes, Block.isMemory, Offset.total_append, Offset.total]

@[simp] theorem size_pushFile (c : Chain) (file offset size : Nat) :
    (c.pushFile file offset size).2.size = c.size + size := by
  rcases c.pushFile_cases file offset size with
    ⟨front, last, start, -, -, -, heq⟩ | heq <;> rw [heq]

@[simp] theorem size_pushMemory (c : Chain) (data : Buffer) (initial : Bool) :
    (c.pushMemory data initial).size = c.size + data.size := by
  unfold pushMemory
  split
  · next h => rw [h, Nat.add_zero]
  · rfl

/-! ## Writing -/

theorem size_overwrite (data : Buffer) (place : Nat) (bytes : List UInt8)
    (h : bytes.length ≤ data.size - place) : (data.overwrite place bytes).size = data.size := by
  simp only [Buffer.overwrite]
  split
  · rfl
  · next hne =>
    have : 0 < bytes.length := List.length_pos_iff.2 (by simpa using hne)
    omega

theorem outline_writeBlock {b : Block} (hfilled : b.Filled) (files : List TempFile) (d : Disk)
    (place : Nat) (bytes : List UInt8) (h : bytes.length ≤ b.size - place) :
    (b.write files d place bytes).state.1.outline = b.outline := by
  obtain ⟨start, size, backing⟩ := b
  cases backing with
  | memory data initial =>
    have hsize : data.size = size := hfilled data initial rfl
    have := size_overwrite data place bytes (by simpa [hsize] using h)
    simp only [Block.write, Outcome.ok, Block.outline, this]
  | file file offset =>
    simp only [Block.write]
    cases files[file]? <;> rfl

theorem outline_writeAlong (files : List TempFile) (overrun : Failure) {blocks : List Block}
    (hfilled : ∀ b ∈ blocks, b.Filled) (d : Disk) (place : Nat) (bytes : List UInt8) :
    (writeAlong files overrun blocks d place bytes).state.1.map Block.outline =
      blocks.map Block.outline := by
  induction blocks generalizing d place bytes with
  | nil =>
    unfold writeAlong
    split <;> rfl
  | cons b rest ih =>
    have hfirst := outline_writeBlock (hfilled b (List.mem_cons_self ..)) files d
      place (bytes.take (min (b.size - place) bytes.length))
      (by rw [List.length_take]; omega)
    unfold writeAlong
    split
    · rfl
    · simp only
      split
      · simp only [Outcome.fail, List.map_cons, hfirst]
      · simp only [Outcome.onState, List.map_cons, hfirst]
        rw [ih fun b hb => hfilled b (List.mem_cons_of_mem _ hb)]

theorem outline_write {c : Chain} (hfilled : ∀ b ∈ c.blocks, b.Filled) (files : List TempFile)
    (d : Disk) (offset : Nat) (bytes : List UInt8) :
    (c.write files d offset bytes).state.1.outline = c.outline := by
  have hsplit : c.blocksBefore offset ++ c.blocksFrom offset = c.blocks :=
    List.takeWhile_append_dropWhile
  unfold write
  split
  · rfl
  · cases hfrom : c.blocksFrom offset with
    | nil => rfl
    | cons b rest =>
      have hrest : ∀ x ∈ b :: rest, x.Filled := by
        intro x hx
        apply hfilled x
        rw [← hsplit, hfrom]
        exact List.mem_append_right _ hx
      simp only [Outcome.onState, outline, List.map_append, outline_writeAlong _ _ hrest]
      rw [← List.map_append, ← hfrom, hsplit]

/-- A store into a view changes the buffer of the one block that holds the whole view. -/
theorem storeInMemory?_some {c c' : Chain} {offset size : Nat} {bytes : List UInt8}
    (h : c.storeInMemory? offset size bytes = some c') :
    ∃ b rest data initial, c.blocksFrom offset = b :: rest ∧ b.backing = .memory data initial ∧
      offset - b.start + size ≤ b.size ∧ c' = { c with
        blocks := c.blocksBefore offset ++ { b with
          backing := .memory (data.overwrite (offset - b.start) (bytes.take size)) initial } ::
            rest } := by
  unfold storeInMemory? at h
  cases hfrom : c.blocksFrom offset with
  | nil =>
    rw [hfrom] at h
    cases h
  | cons b rest =>
    rw [hfrom] at h
    cases hbacking : b.backing with
    | file file place =>
      simp only [hbacking] at h
      cases h
    | memory data initial =>
      simp only [hbacking, Block.window?] at h
      by_cases hfits : offset - b.start + size ≤ b.size
      · simp only [hfits, if_true, Option.isSome_some, Option.some.injEq] at h
        exact ⟨b, rest, data, initial, rfl, hbacking, hfits, h.symm⟩
      · simp only [hfits, if_false, Option.isSome_none, Bool.false_eq_true] at h
        cases h

theorem outline_storeInMemory? {c c' : Chain} (hfilled : ∀ b ∈ c.blocks, b.Filled)
    {offset size : Nat} {bytes : List UInt8} (h : c.storeInMemory? offset size bytes = some c') :
    c'.outline = c.outline := by
  have hsplit : c.blocksBefore offset ++ c.blocksFrom offset = c.blocks :=
    List.takeWhile_append_dropWhile
  obtain ⟨b, rest, data, initial, hfrom, hbacking, hfits, rfl⟩ := storeInMemory?_some h
  have hmem : b ∈ c.blocks := by
    rw [← hsplit, hfrom]
    exact List.mem_append_right _ (List.mem_cons_self ..)
  have hsize : data.size = b.size := hfilled b hmem data initial hbacking
  have := size_overwrite data (offset - b.start) (bytes.take size)
    (by rw [List.length_take]; omega)
  simp only [outline, ← hsplit, hfrom, List.map_append, List.map_cons, Block.outline, hbacking,
    this]

end Chain

end SpillStorage
