import Mathlib.Data.List.TakeWhile
import Mathlib.Order.Bounds.Basic
import SpillStorage.Proofs.Buffer
import SpillStorage.Proofs.Chain.Layout

/-!
Windows: ranges that lie in one memory block.

What is proved:
  1. `Built.joint`: however a chain was built, its blocks lie end to end.
  2. `findMemory?_leastOf`: in such a chain the search finds the first window, if there is one.
  3. `inMemory?_isSome_iff`: there is a view of exactly the windows.
  4. `read_of_view` and `write_of_store`: the view shows what reading gives, and a store into it is
     a write. This needs nothing about the chain.

The search tries a block only where the one before it ends. That it passes over no window rests on
`windows_of_miss`: a window that starts later in a block has room at the start of the search too.
-/

namespace SpillStorage

namespace Chain

variable {c c' : Chain} {b : Block} {blocks rest : List Block}
  {start finish offset place limit size : Nat} {bytes view : List UInt8}

/-! ## How chains are built -/

/-- A chain that blocks were appended to, in memory or in files, and bytes written to. -/
inductive Built : Chain → Prop
  | empty : Built empty
  | pushMemory {c : Chain} (h : Built c) (data : Buffer) (initial : Bool) :
      Built (c.pushMemory data initial)
  | pushFile {c : Chain} (h : Built c) (file offset size : Nat) :
      Built (c.pushFile file offset size).2
  | write {c : Chain} (h : Built c) (files : List TempFile) (d : Disk) (offset : Nat)
      (bytes : List UInt8) : Built (c.write files d offset bytes).state.1
  | store {c c' : Chain} (h : Built c) {offset size : Nat} {bytes : List UInt8}
      (hstore : c.storeInMemory? offset size bytes = some c') : Built c'

theorem Built.filled (h : Built c) : ∀ b ∈ c.blocks, b.Filled := by
  induction h with
  | empty => simp [Chain.empty]
  | pushMemory _ data initial ih => exact filled_pushMemory ih data initial
  | pushFile _ file offset size ih => exact filled_pushFile ih file offset size
  | write _ files d offset bytes ih =>
    exact filled_of_outline (outline_write ih files d offset bytes) ih
  | store _ hstore ih => exact filled_of_outline (outline_storeInMemory? ih hstore) ih

theorem Built.joint (h : Built c) : c.Joint := by
  induction h with
  | empty => exact rfl
  | pushMemory _ data initial ih => exact ih.pushMemory data initial
  | pushFile _ file offset size ih => exact ih.pushFile file offset size
  | write h files d offset bytes ih => exact ih.of_outline (outline_write h.filled files d _ _)
  | store h hstore ih => exact ih.of_outline (outline_storeInMemory? h.filled hstore)

/-! ## The blocks from an offset on -/

theorem mem_blocksFrom (hb : b ∈ c.blocks) (hlt : offset < b.finish) :
    b ∈ c.blocksFrom offset := by
  have hsplit : c.blocksBefore offset ++ c.blocksFrom offset = c.blocks :=
    List.takeWhile_append_dropWhile
  rw [← hsplit] at hb
  rcases List.mem_append.1 hb with hb | hb
  · have hends := List.mem_takeWhile_imp hb
    simp only [ends, decide_eq_true_eq] at hends
    omega
  · exact hb

theorem mem_of_mem_blocksFrom (hb : b ∈ c.blocksFrom offset) : b ∈ c.blocks :=
  (List.dropWhile_sublist _).subset hb

/-- The first of the blocks from an offset on holds it. -/
theorem endToEnd_dropWhile (h : EndToEnd start (blocks.map Block.span) finish)
    (hle : start ≤ offset) (hfrom : blocks.dropWhile (ends offset) = b :: rest) :
    EndToEnd b.start ((b :: rest).map Block.span) finish ∧ b.start ≤ offset ∧
      offset < b.finish := by
  induction blocks generalizing start with
  | nil => cases hfrom
  | cons x tail ih =>
    obtain ⟨hposition, htail⟩ := h
    by_cases hends : ends offset x = true
    · rw [List.dropWhile_cons_of_pos hends] at hfrom
      exact ih htail (of_decide_eq_true hends) hfrom
    · rw [List.dropWhile_cons_of_neg hends] at hfrom
      obtain ⟨rfl, rfl⟩ := List.cons_eq_cons.1 hfrom
      have hlt : offset < x.finish := by simpa [ends] using hends
      exact ⟨⟨rfl, htail⟩, hposition.trans_le hle, hlt⟩

theorem Joint.blocksFrom (h : c.Joint) (hfrom : c.blocksFrom offset = b :: rest) :
    EndToEnd b.start ((b :: rest).map Block.span) c.size ∧ b.start ≤ offset ∧ offset < b.finish :=
  endToEnd_dropWhile h (Nat.zero_le _) hfrom

/-- From an offset past the chain on there are no blocks. -/
theorem Joint.blocksFrom_eq_nil_iff (h : c.Joint) : c.blocksFrom offset = [] ↔ c.size ≤ offset := by
  constructor
  · intro hnil
    cases hlast : c.blocks.getLast? with
    | none =>
      unfold Joint at h
      rw [List.getLast?_eq_none_iff.1 hlast] at h
      exact (show 0 = c.size from h) ▸ Nat.zero_le offset
    | some last =>
      obtain ⟨front, hfront⟩ := List.getLast?_eq_some_iff.1 hlast
      unfold Joint at h
      rw [hfront, List.map_append] at h
      obtain ⟨middle, -, -, hend⟩ := EndToEnd.append_iff.1 h
      have hends := List.dropWhile_eq_nil_iff.1 hnil last (by rw [hfront]; simp)
      rw [← show last.finish = c.size from hend]
      exact of_decide_eq_true hends
  · intro hle
    refine List.dropWhile_eq_nil_iff.2 fun b hb => decide_eq_true ?_
    have hfinish : b.finish ≤ c.size := (EndToEnd.bounds h _ (List.mem_map_of_mem hb)).2
    exact hfinish.trans hle

/-- The block that holds an offset is the first from there on. -/
theorem Joint.blocksFrom_of_mem (h : c.Joint) (hb : b ∈ c.blocks) (hle : b.start ≤ offset)
    (hlt : offset < b.finish) : ∃ rest, c.blocksFrom offset = b :: rest := by
  have hmem := mem_blocksFrom hb hlt
  cases hfrom : c.blocksFrom offset with
  | nil =>
    rw [hfrom] at hmem
    cases hmem
  | cons first rest =>
    obtain ⟨⟨-, hrest⟩, -, hlt'⟩ := h.blocksFrom hfrom
    rw [hfrom] at hmem
    rcases List.mem_cons.1 hmem with rfl | hmem
    · exact ⟨rest, rfl⟩
    · have : first.finish ≤ b.start := (hrest.bounds _ (List.mem_map_of_mem hmem)).1
      omega

/-! ## Windows -/

/-- One memory block holds the byte at `offset` and the `size` bytes from there on. -/
def Window (blocks : List Block) (size offset : Nat) : Prop :=
  ∃ b ∈ blocks, b.isMemory = true ∧ b.start ≤ offset ∧ offset < b.finish ∧ offset + size ≤ b.finish

/-- Where windows of `size` bytes start, from `start` on and with their end at or before `limit`. -/
def windows (blocks : List Block) (start limit size : Nat) : Set Nat :=
  {offset | start ≤ offset ∧ offset + size ≤ limit ∧ Window blocks size offset}

theorem window?_isSome_iff : (b.window? place size).isSome = true ↔
    b.isMemory = true ∧ place + size ≤ b.size := by
  unfold Block.window? Block.isMemory
  cases b.backing with
  | memory data initial => simp [apply_ite Option.isSome]
  | file file offset => simp

/-- The least member of a set, if it has one. -/
def LeastOf (s : Set Nat) : Option Nat → Prop
  | some least => IsLeast s least
  | none => s = ∅

theorem LeastOf.eq_some_iff {s : Set Nat} {found : Option Nat} (h : LeastOf s found) (least : Nat) :
    found = some least ↔ IsLeast s least := by
  cases found with
  | none =>
    refine ⟨fun hfound => (by cases hfound), fun hleast => ?_⟩
    have hmem := hleast.1
    rw [show s = ∅ from h] at hmem
    cases hmem
  | some other =>
    rw [Option.some.injEq]
    constructor
    · rintro rfl
      exact h
    · exact h.unique

theorem LeastOf.eq_none_iff {s : Set Nat} {found : Option Nat} (h : LeastOf s found) :
    found = none ↔ s = ∅ := by
  cases found with
  | none => exact iff_of_true rfl h
  | some least =>
    refine iff_of_false nofun fun hempty => ?_
    have hmem := h.1
    rw [hempty] at hmem
    cases hmem

/-- A block without room at the start of the search holds no window after it either. -/
theorem windows_of_miss (h : EndToEnd b.start ((b :: rest).map Block.span) finish)
    (hstart : b.start ≤ place) (hend : place ≤ b.finish)
    (hmiss : ¬ (b.window? (place - b.start) size).isSome = true) :
    windows (b :: rest) place limit size = windows rest b.finish limit size := by
  rw [window?_isSome_iff] at hmiss
  ext offset
  constructor
  · rintro ⟨hle, hlimit, x, hx, hmemory, hxstart, hlt, hfits⟩
    rcases List.mem_cons.1 hx with rfl | hx
    · refine absurd ⟨hmemory, ?_⟩ hmiss
      unfold Block.finish at hfits
      omega
    · have hbehind : b.finish ≤ x.start := (h.2.bounds _ (List.mem_map_of_mem hx)).1
      exact ⟨hbehind.trans hxstart, hlimit, x, hx, hmemory, hxstart, hlt, hfits⟩
  · rintro ⟨hle, hlimit, x, hx, hholds⟩
    exact ⟨hend.trans hle, hlimit, x, List.mem_cons_of_mem _ hx, hholds⟩

theorem windows_of_past (hlast : limit < place + size) : windows blocks place limit size = ∅ := by
  ext offset
  refine iff_of_false ?_ (Set.notMem_empty offset)
  rintro ⟨hle, hlimit, -⟩
  omega

/-- Along blocks end to end the search finds the first window. -/
theorem findWindow_leastOf (hsize : 0 < size) (hlimit : limit < Offset.bound)
    (h : EndToEnd start (blocks.map Block.span) finish) (hstart : start ≤ place)
    (hend : ∀ b ∈ blocks.head?, place ≤ b.finish) :
    LeastOf (windows blocks place limit size) (findWindow size limit blocks place) := by
  induction blocks generalizing start place with
  | nil =>
    ext offset
    refine iff_of_false ?_ (Set.notMem_empty offset)
    rintro ⟨-, -, x, hx, -⟩
    cases hx
  | cons b rest ih =>
    obtain ⟨rfl, hrest⟩ := h
    have hplace : place ≤ b.finish := hend b rfl
    have hb : b.start ≤ place := hstart
    unfold findWindow
    cases hsum : Offset.sum? place size with
    | none =>
      rw [Offset.sum?_eq_none_iff] at hsum
      exact windows_of_past (by omega)
    | some last =>
      obtain ⟨rfl, -⟩ := Offset.sum?_eq_some_iff.1 hsum
      simp only
      split
      · next hlast =>
        split
        · next hroom =>
          obtain ⟨hmemory, hfits⟩ := window?_isSome_iff.1 hroom
          have hholds : place + size ≤ b.finish := by
            unfold Block.finish
            omega
          refine ⟨⟨Nat.le_refl _, hlast, b, List.mem_cons_self, hmemory, hb, ?_, hholds⟩, ?_⟩
          · omega
          · rintro offset ⟨hle, -⟩
            exact hle
        · next hmiss =>
          -- the next block starts where this one ends
          rw [windows_of_miss ⟨rfl, hrest⟩ hb hplace hmiss]
          refine ih hrest (Nat.le_refl _) fun x hx => ?_
          have hx := (hrest.bounds _ (List.mem_map_of_mem (List.mem_of_mem_head? hx))).1
          exact hx.trans (Nat.le_add_right _ _)
      · next hpast => exact windows_of_past (by omega)

/-- No window is lost with the blocks that end before the search starts. -/
theorem windows_blocksFrom (c : Chain) (start limit size : Nat) :
    windows (c.blocksFrom start) start limit size = windows c.blocks start limit size := by
  ext offset
  constructor
  · rintro ⟨hle, hlimit, b, hb, hholds⟩
    exact ⟨hle, hlimit, b, mem_of_mem_blocksFrom hb, hholds⟩
  · rintro ⟨hle, hlimit, b, hb, hmemory, hstart, hlt, hfits⟩
    exact ⟨hle, hlimit, b, mem_blocksFrom hb (by omega), hmemory, hstart, hlt, hfits⟩

/-- The search finds the first window of the chain. -/
theorem Joint.findMemory?_leastOf (h : c.Joint) (hsize : 0 < size) (hlimit : limit < Offset.bound)
    (start : Nat) :
    LeastOf (windows c.blocks start limit size) (c.findMemory? start limit size) := by
  rw [← windows_blocksFrom]
  unfold findMemory?
  cases hfrom : c.blocksFrom start with
  | nil =>
    have hnone : EndToEnd start (([] : List Block).map Block.span) start := rfl
    exact findWindow_leastOf hsize hlimit hnone (Nat.le_refl _) nofun
  | cons b rest =>
    obtain ⟨hblocks, hle, hlt⟩ := h.blocksFrom hfrom
    refine findWindow_leastOf hsize hlimit hblocks hle ?_
    rintro _ ⟨⟩
    exact Nat.le_of_lt hlt

/-- There is a view of exactly the windows. -/
theorem Joint.inMemory?_isSome_iff (h : c.Joint) :
    (c.inMemory? offset size).isSome = true ↔ Window c.blocks size offset := by
  unfold inMemory?
  constructor
  · intro hsome
    cases hfrom : c.blocksFrom offset with
    | nil =>
      rw [hfrom] at hsome
      cases hsome
    | cons b rest =>
      rw [hfrom] at hsome
      simp only [Option.isSome_map] at hsome
      obtain ⟨hmemory, hfits⟩ := window?_isSome_iff.1 hsome
      obtain ⟨-, hle, hlt⟩ := h.blocksFrom hfrom
      have hmem : b ∈ c.blocks := mem_of_mem_blocksFrom (hfrom ▸ List.mem_cons_self)
      refine ⟨b, hmem, hmemory, hle, hlt, ?_⟩
      unfold Block.finish
      omega
  · rintro ⟨b, hb, hmemory, hle, hlt, hfits⟩
    obtain ⟨rest, hfrom⟩ := h.blocksFrom_of_mem hb hle hlt
    rw [hfrom]
    simp only [Option.isSome_map]
    refine window?_isSome_iff.2 ⟨hmemory, ?_⟩
    unfold Block.finish at hfits
    omega

/-! ## Views -/

/-- A view is a part of the one buffer that holds its range. -/
theorem inMemory?_some (h : c.inMemory? offset size = some view) :
    ∃ b rest data initial, c.blocksFrom offset = b :: rest ∧ b.backing = .memory data initial ∧
      offset - b.start + size ≤ b.size ∧ view = data.slice (offset - b.start) size := by
  unfold inMemory? at h
  cases hfrom : c.blocksFrom offset with
  | nil =>
    rw [hfrom] at h
    cases h
  | cons b rest =>
    rw [hfrom] at h
    obtain ⟨data, hwindow, rfl⟩ := Option.map_eq_some_iff.1 h
    unfold Block.window? at hwindow
    cases hbacking : b.backing with
    | file file place =>
      rw [hbacking] at hwindow
      cases hwindow
    | memory buffer initial =>
      simp only [hbacking, Option.ite_none_right_eq_some, Option.some.injEq] at hwindow
      obtain ⟨hfits, rfl⟩ := hwindow
      exact ⟨b, rest, buffer, initial, rfl, hbacking, hfits, rfl⟩

/-- Bytes can be stored where there is a view. -/
theorem isSome_storeInMemory? (c : Chain) (offset size : Nat) (bytes : List UInt8) :
    (c.storeInMemory? offset size bytes).isSome = (c.inMemory? offset size).isSome := by
  unfold storeInMemory? inMemory?
  cases c.blocksFrom offset with
  | nil => rfl
  | cons b rest =>
    simp only [Option.isSome_map]
    unfold Block.window?
    cases b.backing with
    | file file place => rfl
    | memory data initial => simp [apply_ite Option.isSome]

theorem readAlong_zero (files : List TempFile) (d : Disk) (overrun : Failure) (blocks : List Block)
    (place : Nat) : readAlong files d overrun blocks place 0 = .whole [] := by
  cases blocks <;> rfl

theorem writeAlong_nil (files : List TempFile) (overrun : Failure) (blocks : List Block) (d : Disk)
    (place : Nat) : writeAlong files overrun blocks d place [] = .ok (blocks, d) () := by
  cases blocks <;> rfl

/-- The view shows what reading gives. -/
theorem read_of_view (h : c.inMemory? offset size = some view) (files : List TempFile) (d : Disk) :
    c.read files d offset size = .whole view := by
  obtain ⟨b, rest, data, initial, hfrom, hbacking, hfits, rfl⟩ := inMemory?_some h
  by_cases hsize : size = 0
  · subst hsize
    rfl
  · -- the whole range is read from the first block
    have hfirst : min (b.size - (offset - b.start)) size = size := by omega
    unfold Chain.read
    rw [if_neg hsize, hfrom]
    simp only [readAlong, if_neg hsize, hfirst, Nat.sub_self, readAlong_zero, Block.read, hbacking]
    rw [Transfer.followedBy, Transfer.whole, Transfer.whole, List.append_nil]

theorem overwrite_nil (data : Buffer) (place : Nat) : data.overwrite place [] = data := rfl

/-- A store into the view is a write. -/
theorem write_of_store (h : c.storeInMemory? offset size bytes = some c')
    (hfits : bytes.length ≤ size) (files : List TempFile) (d : Disk) :
    c.write files d offset bytes = .ok (c', d) () := by
  have hsplit : c.blocksBefore offset ++ c.blocksFrom offset = c.blocks :=
    List.takeWhile_append_dropWhile
  obtain ⟨b, rest, data, initial, hfrom, hbacking, hroom, rfl⟩ := storeInMemory?_some h
  rw [List.take_of_length_le hfits]
  by_cases hempty : bytes = []
  · subst hempty
    obtain ⟨start, size, backing⟩ := b
    cases hbacking
    rw [overwrite_nil, ← hfrom, hsplit]
    rfl
  · -- all bytes go to the first block
    have hfirst : min (b.size - (offset - b.start)) bytes.length = bytes.length := by omega
    have hnonempty : bytes.isEmpty = false := by simpa using hempty
    unfold Chain.write
    simp only [hnonempty, Bool.false_eq_true, if_false, hfrom, writeAlong, hfirst, List.take_length,
      List.drop_length, Block.write, hbacking, writeAlong_nil, Outcome.ok, Outcome.onState]

/-- A block that is given another backing is found where it was. -/
theorem blocksFrom_replaced (hfrom : c.blocksFrom offset = b :: rest) (backing : Backing) :
    Chain.blocksFrom
      { c with blocks := c.blocksBefore offset ++ { b with backing := backing } :: rest } offset =
        { b with backing := backing } :: rest := by
  have hfirst : ¬ ends offset b = true := by
    have hne : c.blocks.dropWhile (ends offset) ≠ [] := by
      rw [show c.blocks.dropWhile (ends offset) = b :: rest from hfrom]
      exact List.cons_ne_nil b rest
    have hhead := List.head_dropWhile_not (ends offset) hne
    simpa only [show c.blocks.dropWhile (ends offset) = b :: rest from hfrom, List.head_cons,
      Bool.not_eq_true] using hhead
  unfold Chain.blocksFrom Chain.blocksBefore
  rw [List.dropWhile_append_of_pos fun x hx => List.mem_takeWhile_imp hx]
  exact List.dropWhile_cons_of_neg hfirst

/-- After a store the view shows the bytes, and behind them what it showed. -/
theorem view_of_store (h : c.storeInMemory? offset size bytes = some c')
    (hfits : bytes.length ≤ size) (hview : c.inMemory? offset size = some view) :
    c'.inMemory? offset size = some (bytes ++ view.drop bytes.length) := by
  obtain ⟨b, rest, data, initial, hfrom, hbacking, hroom, hc'⟩ := storeInMemory?_some h
  obtain ⟨_, _, _, _, hfrom', hbacking', -, rfl⟩ := inMemory?_some hview
  rw [hfrom] at hfrom'
  cases hfrom'
  rw [hbacking] at hbacking'
  cases hbacking'
  have hslice := @Buffer.slice_overwrite data (offset - b.start) 0 size bytes (by omega)
  rw [Nat.add_zero, overwritten, List.take_zero, List.nil_append, Nat.zero_add] at hslice
  rw [inMemory?, hc', blocksFrom_replaced hfrom, List.take_of_length_le hfits]
  simp only [Block.window?, hroom, if_true, Option.map_some, hslice]

end Chain

end SpillStorage
