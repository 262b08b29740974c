import Mathlib.Data.List.GetD
import SpillStorage.Proofs.Chain.Image

/-!
The caller's buffer at the head of a chain.

What is proved:
  1. `Layout.size_eq`: the caller's buffer, the other blocks in memory and those in files make up
     the chain.
  2. `initialBytes_pushMemory`, `initialBytes_pushFile` and `initialBytes_congr`: what is appended
     and what is written leave the size of the caller's buffer as it was.
  3. `Layout.initial_first` and `Layout.no_initial`: the buffer is the first block, so what is taken
     out of the chain shows the first bytes of it; where there is none, nothing is taken out.
-/

namespace SpillStorage.Chain

/-- Bytes in the caller's buffer. -/
def initialBytes (c : Chain) : Nat :=
  Offset.total ((c.blocks.filter Block.isInitial).map Block.size)

theorem isMemory_of_isInitial {b : Block} (h : b.isInitial = true) : b.isMemory = true := by
  unfold Block.isInitial at h
  unfold Block.isMemory
  cases hbacking : b.backing with
  | memory data initial => rfl
  | file file offset =>
    rw [hbacking] at h
    cases h

theorem memoryBytes_all (c : Chain) :
    c.memoryBytes true = Offset.total ((c.blocks.filter Block.isMemory).map Block.size) := by
  simp only [memoryBytes, Bool.true_or, Bool.and_true]

/-- With the caller's buffer there is more in memory by just that. -/
theorem memoryBytes_true (c : Chain) :
    c.memoryBytes true = c.initialBytes + c.memoryBytes false := by
  have hinitial : ((c.blocks.filter Block.isMemory).filter Block.isInitial) =
      c.blocks.filter Block.isInitial := by
    rw [List.filter_filter]
    apply List.filter_congr
    intro b _
    cases hb : b.isInitial with
    | false => rfl
    | true => rw [isMemory_of_isInitial hb, Bool.and_self]
  have hothers : ((c.blocks.filter Block.isMemory).filter fun b => !b.isInitial) =
      c.blocks.filter fun b => b.isMemory && (false || !b.isInitial) := by
    rw [List.filter_filter]
    apply List.filter_congr
    intro b _
    rw [Bool.false_or, Bool.and_comm]
  rw [memoryBytes_all, Offset.total_filter Block.size Block.isInitial, hinitial, hothers]
  rfl

theorem Layout.size_eq {c : Chain} {files : List TempFile} (h : c.Layout files) :
    c.size = c.initialBytes + c.memoryBytes false + c.fileBytes := by
  have htotal := EndToEnd.total h.joint
  have hparts := Offset.total_filter Block.size Block.isMemory c.blocks
  have hsizes : (c.blocks.map Block.span).map Segment.size = c.blocks.map Block.size := by
    rw [List.map_map]
    rfl
  rw [Nat.zero_add, hsizes, hparts, ← memoryBytes_all, memoryBytes_true] at htotal
  exact htotal.symm

/-! ## What is appended and what is written -/

theorem initialBytes_pushMemory (c : Chain) (data : Buffer) (initial : Bool) :
    (c.pushMemory data initial).initialBytes =
      c.initialBytes + if initial then data.size else 0 := by
  have hold := c.memoryBytes_true
  have hnew := (c.pushMemory data initial).memoryBytes_true
  rw [memoryBytes_pushMemory, memoryBytes_pushMemory] at hnew
  cases initial with
  | true => simp at hnew ⊢; omega
  | false => simp at hnew ⊢; omega

theorem initialBytes_pushFile (c : Chain) (file offset size : Nat) :
    (c.pushFile file offset size).2.initialBytes = c.initialBytes := by
  have hold := c.memoryBytes_true
  have hnew := (c.pushFile file offset size).2.memoryBytes_true
  simp only [memoryBytes_pushFile] at hnew
  omega

theorem initialBytes_congr {c c' : Chain} (h : c'.outline = c.outline) :
    c'.initialBytes = c.initialBytes := by
  have hold := c.memoryBytes_true
  have hnew := c'.memoryBytes_true
  rw [← memoryBytes_outline c', ← memoryBytes_outline c', h, memoryBytes_outline,
    memoryBytes_outline] at hnew
  omega

/-! ## Taking it out -/

theorem initialBytes_cons {b : Block} {rest : List Block} {size : Nat}
    (h : ∀ x ∈ rest, x.isInitial = false) :
    initialBytes ⟨b :: rest, size⟩ = if b.isInitial then b.size else 0 := by
  have hrest : rest.filter Block.isInitial = [] :=
    List.filter_eq_nil_iff.2 fun x hx => by rw [h x hx]; exact Bool.false_ne_true
  rw [initialBytes, List.filter_cons, hrest]
  split <;> rfl

/-- A chain with a caller's buffer starts with it. -/
theorem Layout.initial_first {c : Chain} {files : List TempFile} (h : c.Layout files)
    (hpos : 0 < c.initialBytes) :
    ∃ data rest, c.blocks = ⟨0, c.initialBytes, .memory data true⟩ :: rest ∧
      data.size = c.initialBytes := by
  obtain ⟨blocks, size⟩ := c
  cases blocks with
  | nil => cases hpos
  | cons b rest =>
    have hstart : b.start = 0 := h.spans.1
    have hfilled := h.buffers b List.mem_cons_self
    have hrest : ∀ x ∈ rest, x.isInitial = false := h.initial
    rw [initialBytes_cons hrest] at hpos ⊢
    obtain ⟨start, length, backing⟩ := b
    cases backing with
    | file file offset => cases hpos
    | memory data initial =>
      cases initial with
      | false => cases hpos
      | true =>
        cases hstart
        exact ⟨data, rest, rfl, hfilled data true rfl⟩

theorem takeInitial_eq {c : Chain} {start size : Nat} {data : Buffer} {rest : List Block}
    (h : c.blocks = ⟨start, size, .memory data true⟩ :: rest) : c.takeInitial.1 = some data := by
  rw [takeInitial, h]

/-- In the first block there are the first bytes. -/
theorem image_getD_first {c : Chain} {data : Buffer} {initial : Bool} {rest : List Block}
    (h : c.blocks = ⟨0, data.size, .memory data initial⟩ :: rest) (files : List TempFile) (d : Disk)
    {i : Nat} (hi : i < data.size) : (c.image files d).getD i 0 = data.byteAt i := by
  have hlength : i < data.toList.length := by rwa [Buffer.toList, Buffer.length_slice]
  have himage : c.image files d = data.toList ++ imageOf files d rest := by
    rw [image, h, imageOf_cons]
    rfl
  rw [himage, List.getD_append _ _ _ _ hlength, Buffer.getD_toList data hi]

/-- No block is the caller's, so none is taken out. -/
theorem Layout.no_initial {c : Chain} {files : List TempFile} (h : c.Layout files)
    (hzero : c.initialBytes = 0) : c.takeInitial.1 = none := by
  obtain ⟨blocks, size⟩ := c
  cases blocks with
  | nil => rfl
  | cons b rest =>
    have hsize : 0 < b.size := h.spans.2.1
    have hrest : ∀ x ∈ rest, x.isInitial = false := h.initial
    rw [initialBytes_cons hrest] at hzero
    obtain ⟨start, length, backing⟩ := b
    cases backing with
    | file file offset => rfl
    | memory data initial =>
      cases initial with
      | false => rfl
      | true => exact absurd hzero (Nat.pos_iff_ne_zero.1 hsize)

end SpillStorage.Chain
