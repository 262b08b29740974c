import SpillStorage.Proofs.Chain.Windows

/-!
The bytes that a chain stands for.

What is proved, for a chain seated over files whose bytes are there:
  1. `read_eq`: reading gives the bytes of the image until they end.
  2. `write_eq`: writing replaces the bytes of the image until they end, and changes nothing behind
     other handles.
  3. `read_spec` and `write_spec`: so inside the chain both succeed.
  4. `store_spec`: a store into a view does the same to the image as a write.

Reading and writing run block by block. What carries the induction is that blocks are apart: bytes
written to one block are seen in no other.
-/

namespace SpillStorage

/-- The file is there, as long as it is claimed, with zeros past its end. -/
structure TempFile.Backed (f : TempFile) (d : Disk) : Prop where
  size : (d.content f.handle).size = f.size
  exists_content : (d.content? f.handle).isSome
  zero_past : ∀ i, f.size ≤ i → (d.content f.handle).byteAt i = 0
  size_le : f.size ≤ f.greatest

theorem TempFile.Backed.congr {f : TempFile} {d d' : Disk} (h : f.Backed d)
    (heq : d'.content? f.handle = d.content? f.handle) : f.Backed d' := by
  have hcontent := Disk.content_congr heq
  obtain ⟨size, exists_content, zero_past, size_le⟩ := h
  exact ⟨hcontent ▸ size, heq ▸ exists_content, hcontent ▸ zero_past, size_le⟩

/-- What writing to the files may do to the disk: files stay as long as they are, and what lies
behind other handles stays as it is. -/
structure Disk.Rewritten (files : List TempFile) (d d' : Disk) : Prop where
  backed : ∀ f ∈ files, f.Backed d → f.Backed d'
  elsewhere : ∀ handle, handle ∉ files.map TempFile.handle → d'.content? handle = d.content? handle
  present : ∀ handle, (d'.content? handle).isSome = (d.content? handle).isSome

namespace Disk.Rewritten

theorem refl (files : List TempFile) (d : Disk) : Disk.Rewritten files d d :=
  ⟨fun _ _ h => h, fun _ _ => rfl, fun _ => rfl⟩

theorem trans {files : List TempFile} {d₁ d₂ d₃ : Disk} (h₁ : Disk.Rewritten files d₁ d₂)
    (h₂ : Disk.Rewritten files d₂ d₃) : Disk.Rewritten files d₁ d₃ :=
  ⟨fun f hf hb => h₂.backed f hf (h₁.backed f hf hb),
    fun handle hh => (h₂.elsewhere handle hh).trans (h₁.elsewhere handle hh),
    fun handle => (h₂.present handle).trans (h₁.present handle)⟩

end Disk.Rewritten

namespace TempFile

theorem readAt_spec {f : TempFile} {d : Disk} (hf : f.Backed d) {offset length : Nat}
    (hle : offset + length ≤ f.size) :
    f.readAt d offset length = .whole ((d.content f.handle).slice offset length) := by
  have := hf.size
  have := hf.size_le
  simp only [readAt]
  rw [if_neg (by omega), if_pos (by omega)]

theorem writeAt_spec {f : TempFile} {d : Disk} (hf : f.Backed d) {offset : Nat} {bytes : List UInt8}
    (hle : offset + bytes.length ≤ f.size) : f.writeAt d offset bytes =
      .ok (d.setContent f.handle ((d.content f.handle).overwrite offset bytes)) () := by
  have := hf.size_le
  simp only [writeAt]
  rw [if_neg (by omega), if_pos (by omega), List.take_of_length_le (by omega)]

/-- Two files with one handle are one file. -/
theorem eq_of_handle {files : List TempFile} (hnodup : (files.map handle).Nodup) {i j : Nat}
    {f g : TempFile} (hf : files[i]? = some f) (hg : files[j]? = some g)
    (heq : f.handle = g.handle) : i = j := by
  obtain ⟨hi, rfl⟩ := List.getElem?_eq_some_iff.1 hf
  obtain ⟨hj, rfl⟩ := List.getElem?_eq_some_iff.1 hg
  have hi' : i < (files.map handle).length := by simpa using hi
  have hj' : j < (files.map handle).length := by simpa using hj
  have heq' : (files.map handle)[i] = (files.map handle)[j] := by simpa using heq
  exact hnodup.getElem_inj_iff.1 heq'

theorem rewritten_writeAt {files : List TempFile} (hnodup : (files.map handle).Nodup) {f : TempFile}
    (hmem : f ∈ files) {d : Disk} (hf : f.Backed d) {offset : Nat} {bytes : List UInt8}
    (hle : offset + bytes.length ≤ f.size) :
    Disk.Rewritten files d
      (d.setContent f.handle ((d.content f.handle).overwrite offset bytes)) := by
  obtain ⟨content, hcontent⟩ := Option.isSome_iff_exists.1 hf.exists_content
  have hsize := hf.size
  have hafter : (d.setContent f.handle ((d.content f.handle).overwrite offset bytes)).content?
      f.handle = some ((d.content f.handle).overwrite offset bytes) := by
    rw [Disk.content?_setContent, if_pos rfl, hcontent]
    rfl
  refine ⟨?_, ?_, ?_⟩
  · intro g hg hb
    obtain ⟨i, hi⟩ := List.mem_iff_getElem?.1 hmem
    obtain ⟨j, hj⟩ := List.mem_iff_getElem?.1 hg
    -- a file with the same handle is the file itself, and no byte falls past its claimed size
    by_cases heq : g.handle = f.handle
    · have hij := eq_of_handle hnodup hj hi heq
      subst hij
      rw [hi] at hj
      cases hj
      refine ⟨?_, by rw [hafter]; rfl, ?_, hf.size_le⟩
      · rw [Disk.content_of_content? hafter, ← hsize]
        simp only [Buffer.overwrite]
        split
        · rfl
        · omega
      · intro i hi
        rw [Disk.content_of_content? hafter, Buffer.byteAt_overwrite, if_neg (by omega)]
        exact hf.zero_past i hi
    · exact hb.congr (by rw [Disk.content?_setContent, if_neg heq])
  · intro k hk
    rw [Disk.content?_setContent, if_neg]
    rintro rfl
    exact hk (List.mem_map_of_mem hmem)
  · intro k
    rw [Disk.content?_setContent]
    split
    · next heq => rw [heq, hcontent]; rfl
    · rfl

end TempFile

namespace Block

/-- The bytes that the block stands for. -/
def bytes (files : List TempFile) (d : Disk) (b : Block) : List UInt8 :=
  match b.backing with
  | .memory data _ => data.slice 0 b.size
  | .file file offset =>
    match files[file]? with
    | some f => (d.content f.handle).slice offset b.size
    | none => []

/-- The storage of the block is there. -/
def Placed (files : List TempFile) (b : Block) : Prop :=
  b.Filled ∧ ∀ file offset, b.backing = .file file offset →
    ∃ f, files[file]? = some f ∧ offset + b.size ≤ f.size

theorem length_bytes {files : List TempFile} {b : Block} (h : b.Placed files) (d : Disk) :
    (b.bytes files d).length = b.size := by
  unfold bytes
  cases hb : b.backing with
  | memory data initial => exact Buffer.length_slice _ _ _
  | file file offset =>
    obtain ⟨f, hf, -⟩ := h.2 file offset hb
    simp only [hf]
    exact Buffer.length_slice _ _ _

/-- Two blocks share no byte of a file. -/
def Apart (b x : Block) : Prop := ∀ place s t, b.extent? place = some s → x.extent? place = some t →
  s.finish ≤ t.position ∨ t.finish ≤ s.position

theorem Apart.symm {b x : Block} (h : b.Apart x) : x.Apart b :=
  fun place s t hs ht => (h place t s ht hs).symm

theorem extent?_of_outline {b b' : Block} (h : b'.outline = b.outline) (place : Nat) :
    b'.extent? place = b.extent? place := by
  rw [← b'.extent?_outline, h, b.extent?_outline]

theorem Apart.of_outline {b b' x : Block} (h : b.Apart x) (ho : b'.outline = b.outline) :
    b'.Apart x := by
  intro place s t hs ht
  rw [extent?_of_outline ho] at hs
  exact h place s t hs ht

/-- Blocks that are apart share no byte behind a handle. -/
theorem Apart.ranges {b x : Block} (h : b.Apart x) {files : List TempFile}
    (hnodup : (files.map TempFile.handle).Nodup) {file other offset start : Nat} {f g : TempFile}
    (hb : b.backing = .file file offset) (hx : x.backing = .file other start)
    (hf : files[file]? = some f) (hg : files[other]? = some g) (heq : f.handle = g.handle) :
    offset + b.size ≤ start ∨ start + x.size ≤ offset := by
  have hsame := TempFile.eq_of_handle hnodup hf hg heq
  subst hsame
  exact h file ⟨offset, b.size⟩ ⟨start, x.size⟩ (extent?_eq_some_iff.2 ⟨offset, hb, rfl⟩)
    (extent?_eq_some_iff.2 ⟨start, hx, rfl⟩)

theorem read_spec {files : List TempFile} {d : Disk} (hfiles : ∀ f ∈ files, f.Backed d) {b : Block}
    (hb : b.Placed files) {place length : Nat} (hle : place + length ≤ b.size) :
    b.read files d place length = .whole (((b.bytes files d).drop place).take length) := by
  have slice_spec : ∀ (data : Buffer) (offset : Nat),
      ((data.slice offset b.size).drop place).take length = data.slice (offset + place) length := by
    intro data offset
    rw [Buffer.drop_slice _ (by omega), Buffer.take_slice _ (by omega)]
  unfold read bytes
  cases hbacking : b.backing with
  | memory data initial =>
    simp only
    rw [slice_spec, Nat.zero_add]
  | file file offset =>
    obtain ⟨f, hf, hsize⟩ := hb.2 file offset hbacking
    simp only [hf]
    rw [TempFile.readAt_spec (hfiles f (List.mem_of_getElem? hf)) (by omega), slice_spec]

theorem content_setContent_self {f : TempFile} {d : Disk} (hf : f.Backed d) (content : Buffer) :
    (d.setContent f.handle content).content f.handle = content := by
  obtain ⟨old, hold⟩ := Option.isSome_iff_exists.1 hf.exists_content
  apply Disk.content_of_content?
  rw [Disk.content?_setContent, if_pos rfl, hold]
  rfl

/-- A block shows the same bytes after a write to a file that is apart from it. -/
theorem bytes_setContent_of_apart {files : List TempFile} {d : Disk} {f : TempFile}
    (hf : f.Backed d) (x : Block) {place : Nat} {data : List UInt8}
    (hx : ∀ other start g, x.backing = .file other start → files[other]? = some g →
      g.handle = f.handle → start + x.size ≤ place ∨ place + data.length ≤ start) :
    x.bytes files (d.setContent f.handle ((d.content f.handle).overwrite place data)) =
      x.bytes files d := by
  unfold bytes
  cases hbacking : x.backing with
  | memory buffer initial => rfl
  | file other start =>
    cases hg : files[other]? with
    | none => simp only [hg]
    | some g =>
      simp only [hg]
      by_cases heq : g.handle = f.handle
      · rw [heq, content_setContent_self hf]
        exact Buffer.slice_overwrite_of_apart _ (hx other start g hbacking hg heq)
      · have hsame := Disk.content?_setContent d f.handle g.handle
          ((d.content f.handle).overwrite place data)
        rw [if_neg heq] at hsame
        rw [Disk.content_congr hsame]

/-- Writing inside a block succeeds; other blocks show the same bytes as before. -/
theorem write_spec {files : List TempFile} {d : Disk} (hfiles : ∀ f ∈ files, f.Backed d)
    (hnodup : (files.map TempFile.handle).Nodup) {b : Block} (hb : b.Placed files) {place : Nat}
    {data : List UInt8} (hle : place + data.length ≤ b.size) :
    ∃ b' d', b.write files d place data = .ok (b', d') () ∧ b'.outline = b.outline ∧
      b'.bytes files d' = overwritten (b.bytes files d) place data ∧
      (∀ x : Block, b.Apart x → x.bytes files d' = x.bytes files d) ∧
      Disk.Rewritten files d d' := by
  have houtline := Chain.outline_writeBlock hb.1 files d place data (by omega)
  unfold write at houtline ⊢
  cases hbacking : b.backing with
  | memory buffer initial =>
    rw [hbacking] at houtline
    refine ⟨_, d, rfl, houtline, ?_, fun _ _ => rfl, .refl files d⟩
    have := Buffer.slice_overwrite buffer 0 hle
    rw [Nat.zero_add] at this
    simp only [bytes, hbacking, this]
  | file file offset =>
    obtain ⟨f, hf, hsize⟩ := hb.2 file offset hbacking
    have hmem := List.mem_of_getElem? hf
    have hbacked := hfiles f hmem
    simp only [hf]
    rw [TempFile.writeAt_spec hbacked (by omega)]
    refine ⟨b, d.setContent f.handle ((d.content f.handle).overwrite (offset + place) data), rfl,
      rfl, ?_, ?_, TempFile.rewritten_writeAt hnodup hmem hbacked (by omega)⟩
    · simp only [bytes, hbacking, hf, content_setContent_self hbacked]
      exact Buffer.slice_overwrite _ _ hle
    · intro x hx
      apply bytes_setContent_of_apart hbacked x
      intro other start g hxb hg heq
      have := hx.ranges hnodup hbacking hxb hf hg heq.symm
      omega

end Block

namespace Chain

/-- The bytes that some blocks stand for, one after the other. -/
def imageOf (files : List TempFile) (d : Disk) (blocks : List Block) : List UInt8 :=
  blocks.flatMap (Block.bytes files d)

/-- The bytes that the chain stands for. -/
def image (c : Chain) (files : List TempFile) (d : Disk) : List UInt8 := imageOf files d c.blocks

theorem imageOf_cons (files : List TempFile) (d : Disk) (b : Block) (rest : List Block) :
    imageOf files d (b :: rest) = b.bytes files d ++ imageOf files d rest := List.flatMap_cons

theorem imageOf_append (files : List TempFile) (d : Disk) (xs ys : List Block) :
    imageOf files d (xs ++ ys) = imageOf files d xs ++ imageOf files d ys := List.flatMap_append

theorem imageOf_congr {files files' : List TempFile} {d d' : Disk} {blocks : List Block}
    (h : ∀ b ∈ blocks, b.bytes files' d' = b.bytes files d) :
    imageOf files' d' blocks = imageOf files d blocks := by
  induction blocks with
  | nil => rfl
  | cons b rest ih =>
    rw [imageOf_cons, imageOf_cons, h b (List.mem_cons_self ..),
      ih fun x hx => h x (List.mem_cons_of_mem _ hx)]

theorem Seated.placed {c : Chain} {files : List TempFile} (h : c.Seated files) :
    ∀ b ∈ c.blocks, b.Placed files :=
  fun b hb => ⟨h.buffers b hb, fun _ _ hfile => h.file_exists hb hfile⟩

theorem length_imageOf {files : List TempFile} {blocks : List Block}
    (hplaced : ∀ b ∈ blocks, b.Placed files) (d : Disk) {start finish : Nat}
    (h : EndToEnd start (blocks.map Block.span) finish) :
    start + (imageOf files d blocks).length = finish := by
  induction blocks generalizing start with
  | nil => exact h
  | cons b rest ih =>
    obtain ⟨hstart, hrest⟩ := h
    have := ih (fun x hx => hplaced x (List.mem_cons_of_mem _ hx)) hrest
    simp only [Block.span, Segment.finish] at this hstart
    rw [imageOf_cons, List.length_append, Block.length_bytes (hplaced b (List.mem_cons_self ..))]
    omega

theorem Seated.length_image {c : Chain} {files : List TempFile} (h : c.Seated files) (d : Disk) :
    (c.image files d).length = c.size := by
  have := length_imageOf h.placed d h.joint
  rw [image]
  omega

/-! ## Where an offset lies -/

/-- A chain cut in front of a block, with its image cut there as well. -/
structure Parted (c : Chain) (files : List TempFile) (d : Disk) (front : List Block) (b : Block)
    (rest : List Block) : Prop where
  before : (imageOf files d front).length = b.start
  after : b.start + (imageOf files d (b :: rest)).length = c.size
  image : c.image files d = imageOf files d front ++ imageOf files d (b :: rest)

theorem Seated.parted {c : Chain} {files : List TempFile} (h : c.Seated files) (d : Disk)
    {front rest : List Block} {b : Block} (hblocks : c.blocks = front ++ b :: rest) :
    c.Parted files d front b rest := by
  have hplaced := h.placed
  have hjoint := h.joint
  unfold Joint at hjoint
  rw [hblocks] at hplaced
  rw [hblocks, List.map_append] at hjoint
  obtain ⟨middle, hbefore, hposition, hrest⟩ := EndToEnd.append_iff.1 hjoint
  have hstart : b.start = middle := hposition
  subst hstart
  have hfront := length_imageOf (fun x hx => hplaced x (List.mem_append_left _ hx)) d hbefore
  refine ⟨by omega, length_imageOf (fun x hx => hplaced x (List.mem_append_right _ hx)) d
    ⟨rfl, hrest⟩, ?_⟩
  rw [Chain.image, hblocks, imageOf_append]

/-- Each block shows its part of the image. -/
theorem Seated.bytes_eq {c : Chain} {files : List TempFile} (h : c.Seated files) (d : Disk)
    {b : Block} (hb : b ∈ c.blocks) :
    b.bytes files d = ((c.image files d).drop b.start).take b.size := by
  obtain ⟨front, rest, hblocks⟩ := List.append_of_mem hb
  have hparted := h.parted d hblocks
  rw [hparted.image, ← hparted.before, List.drop_left, imageOf_cons,
    ← Block.length_bytes (h.placed b hb) d, List.take_left]

/-- A chain cut at the block that holds an offset. -/
structure Cut (c : Chain) (files : List TempFile) (d : Disk) (offset : Nat) (b : Block)
    (rest : List Block) : Prop extends c.Parted files d (c.blocksBefore offset) b rest where
  blocks : c.blocks = c.blocksBefore offset ++ b :: rest
  start_le : b.start ≤ offset
  lt_finish : offset < b.start + b.size

theorem Seated.cut {c : Chain} {files : List TempFile} (h : c.Seated files) (d : Disk)
    {offset : Nat} {b : Block} {rest : List Block} (hfrom : c.blocksFrom offset = b :: rest) :
    c.Cut files d offset b rest := by
  have hblocks : c.blocks = c.blocksBefore offset ++ b :: rest := by
    rw [← hfrom]
    exact List.takeWhile_append_dropWhile.symm
  obtain ⟨-, hle, hlt⟩ := h.joint.blocksFrom hfrom
  exact ⟨h.parted d hblocks, hblocks, hle, hlt⟩

theorem Cut.drop {c : Chain} {files : List TempFile} {d : Disk} {offset : Nat} {b : Block}
    {rest : List Block} (h : c.Cut files d offset b rest) :
    (c.image files d).drop offset = (imageOf files d (b :: rest)).drop (offset - b.start) := by
  rw [h.image, List.drop_append, h.before,
    List.drop_eq_nil_of_le (by rw [h.before]; exact h.start_le), List.nil_append]

/-- To write from an offset of a chain on is to write to the blocks from there on. -/
theorem Cut.overwritten {c : Chain} {files : List TempFile} {d : Disk} {offset : Nat} {b : Block}
    {rest : List Block} (h : c.Cut files d offset b rest) (bytes : List UInt8) :
    overwritten (c.image files d) offset bytes = imageOf files d (c.blocksBefore offset) ++
      SpillStorage.overwritten (imageOf files d (b :: rest)) (offset - b.start) bytes := by
  rw [h.image, overwritten_append_right (by rw [h.before]; exact h.start_le), h.before]

/-! ## Reading -/

/-- Reading along blocks ends with them, or with as many bytes as were asked for. -/
theorem readAlong_eq {files : List TempFile} {d : Disk} (hfiles : ∀ f ∈ files, f.Backed d)
    (overrun : Failure) {blocks : List Block} (hplaced : ∀ b ∈ blocks, b.Placed files)
    {place : Nat} (hplace : ∀ b, blocks.head? = some b → place ≤ b.size) (length : Nat) :
    readAlong files d overrun blocks place length =
      ⟨((imageOf files d blocks).drop place).take length,
        if length = 0 ∨ place + length ≤ (imageOf files d blocks).length then none
        else some overrun⟩ := by
  induction blocks generalizing place length with
  | nil =>
    unfold readAlong
    simp only [imageOf, List.flatMap_nil, List.drop_nil, List.take_nil, List.length_nil]
    congr 1
    exact if_congr (by omega) rfl rfl
  | cons b rest ih =>
    have hb := hplaced b (List.mem_cons_self ..)
    have hlength := Block.length_bytes hb d
    have hplace := hplace b rfl
    unfold readAlong
    by_cases hzero : length = 0
    · rw [if_pos hzero, if_pos (.inl hzero), hzero, List.take_zero]
      rfl
    · rw [if_neg hzero]
      simp only
      rw [Block.read_spec hfiles hb (by omega),
        ih (fun x hx => hplaced x (List.mem_cons_of_mem _ hx)) (fun _ _ => Nat.zero_le _)]
      simp only [Transfer.followedBy, Transfer.whole, List.drop_zero]
      rw [imageOf_cons, List.length_append, List.drop_append_of_le_length (by omega),
        List.take_append, List.length_drop, hlength]
      -- either the whole range lies in this block, or the block is read to its end
      congr 1
      · congr 1
        · by_cases hfits : length ≤ b.size - place
          · rw [Nat.min_eq_right hfits]
          · rw [Nat.min_eq_left (by omega),
              List.take_of_length_le (by rw [List.length_drop]; omega),
              List.take_of_length_le (by rw [List.length_drop]; omega)]
        · congr 1
          omega
      · exact if_congr (by omega) rfl rfl

/-- Reading gives the bytes of the image from the offset on, until they end. -/
theorem read_eq {c : Chain} {files : List TempFile} (h : c.Seated files) {d : Disk}
    (hfiles : ∀ f ∈ files, f.Backed d) (offset length : Nat) :
    c.read files d offset length = ⟨((c.image files d).drop offset).take length,
      if length = 0 ∨ offset + length ≤ c.size then none
      else some (.outOfBounds offset length c.size)⟩ := by
  have himage := h.length_image d
  unfold read
  by_cases hzero : length = 0
  · rw [if_pos hzero, if_pos (.inl hzero), hzero, List.take_zero]
    rfl
  · rw [if_neg hzero]
    cases hfrom : c.blocksFrom offset with
    | nil =>
      have hpast := h.joint.blocksFrom_eq_nil_iff.1 hfrom
      rw [if_neg (by omega), List.drop_eq_nil_of_le (by omega), List.take_nil]
      rfl
    | cons b rest =>
      have hcut := h.cut d hfrom
      have hplaced : ∀ x ∈ b :: rest, x.Placed files := by
        intro x hx
        apply h.placed x
        rw [hcut.blocks]
        exact List.mem_append_right _ hx
      have hstart := hcut.start_le
      have hlt := hcut.lt_finish
      have hafter := hcut.after
      simp only
      rw [readAlong_eq hfiles _ hplaced (by
        rintro x ⟨⟩
        omega), hcut.drop]
      congr 1
      exact if_congr (by omega) rfl rfl

/-- Reading inside a chain gives the bytes of its image. -/
theorem read_spec {c : Chain} {files : List TempFile} (h : c.Seated files) {d : Disk}
    (hfiles : ∀ f ∈ files, f.Backed d) {offset length : Nat} (hle : offset + length ≤ c.size) :
    c.read files d offset length = .whole (((c.image files d).drop offset).take length) := by
  rw [read_eq h hfiles, if_pos (.inr hle)]
  rfl

/-! ## Writing -/

theorem Seated.apart {c : Chain} {files : List TempFile} (h : c.Seated files) :
    c.blocks.Pairwise Block.Apart := by
  have hextents : ∀ place, c.blocks.Pairwise fun b x => ∀ s, b.extent? place = some s →
      ∀ t, x.extent? place = some t → s.finish ≤ t.position := by
    intro place
    have hsorted : (c.extents place).Pairwise fun s t => s.finish ≤ t.position :=
      (h.extents place).sorted
    rw [Chain.extents, List.pairwise_filterMap] at hsorted
    exact hsorted
  rw [List.pairwise_iff_getElem]
  intro i j hi hj hij place s t hs ht
  exact .inl (List.pairwise_iff_getElem.1 (hextents place) i j hi hj hij s hs t ht)

/-- Writing along blocks ends with them, or with the bytes. -/
theorem writeAlong_eq {files : List TempFile} (hnodup : (files.map TempFile.handle).Nodup)
    (overrun : Failure) {blocks : List Block} (hplaced : ∀ b ∈ blocks, b.Placed files)
    (hapart : blocks.Pairwise Block.Apart) {d : Disk} (hfiles : ∀ f ∈ files, f.Backed d)
    {place : Nat} (hplace : ∀ b, blocks.head? = some b → place ≤ b.size) (bytes : List UInt8) :
    ∃ blocks' d', writeAlong files overrun blocks d place bytes = ⟨(blocks', d'),
        if bytes.length = 0 ∨ place + bytes.length ≤ (imageOf files d blocks).length then .ok ()
        else .error overrun⟩ ∧
      imageOf files d' blocks' = overwritten (imageOf files d blocks) place
        (bytes.take ((imageOf files d blocks).length - place)) ∧
      (∀ x : Block, (∀ b ∈ blocks, b.Apart x) → x.bytes files d' = x.bytes files d) ∧
      Disk.Rewritten files d d' := by
  induction blocks generalizing d place bytes with
  | nil =>
    refine ⟨[], d, ?_, ?_, fun _ _ => rfl, .refl files d⟩
    · unfold writeAlong
      simp only [imageOf, List.flatMap_nil, List.length_nil]
      by_cases hempty : bytes.isEmpty = true
      · rw [if_pos hempty, if_pos (.inl (by simpa using hempty))]
        rfl
      · have hpos : 0 < bytes.length := List.length_pos_iff.2 (by simpa using hempty)
        rw [if_neg hempty, if_neg (by omega)]
        rfl
    · simp only [imageOf, List.flatMap_nil, List.length_nil, Nat.zero_sub, List.take_zero,
        overwritten_nil]
  | cons b rest ih =>
    have hb := hplaced b (List.mem_cons_self ..)
    have hrest := fun x hx => hplaced x (List.mem_cons_of_mem b hx)
    obtain ⟨hfirst, hapart'⟩ := List.pairwise_cons.1 hapart
    have hlength := Block.length_bytes hb d
    have hplace := hplace b rfl
    unfold writeAlong
    by_cases hempty : bytes.isEmpty = true
    · rw [if_pos hempty, List.isEmpty_iff.1 hempty, List.take_nil, if_pos (.inl rfl)]
      exact ⟨b :: rest, d, rfl, (overwritten_nil _ _).symm, fun _ _ => rfl, .refl files d⟩
    · have hpos : 0 < bytes.length := List.length_pos_iff.2 (by simpa using hempty)
      rw [if_neg hempty]
      have hfits : place + (bytes.take (min (b.size - place) bytes.length)).length ≤ b.size := by
        rw [List.length_take]
        omega
      obtain ⟨b', d₁, hwrite, houtline, hbytes, hframe, hrewritten⟩ :=
        Block.write_spec hfiles hnodup hb hfits
      -- the blocks that follow show what they did before the first was written
      have hsame : imageOf files d₁ rest = imageOf files d rest :=
        imageOf_congr fun x hx => hframe x (hfirst x hx)
      obtain ⟨rest', d₂, hwrite', himage', hframe', hrewritten'⟩ := ih hrest hapart'
        (fun f hf => hrewritten.backed f hf (hfiles f hf)) (fun _ _ => Nat.zero_le _)
        (bytes.drop (min (b.size - place) bytes.length))
      rw [hsame] at hwrite' himage'
      refine ⟨b' :: rest', d₂, ?_, ?_, ?_, hrewritten.trans hrewritten'⟩
      · simp only [hwrite, Outcome.ok, hwrite', Outcome.onState]
        congr 1
        rw [imageOf_cons, List.length_append, hlength, List.length_drop]
        exact if_congr (by omega) rfl rfl
      · have hkept : b'.bytes files d₂ = b'.bytes files d₁ :=
          hframe' b' fun x hx => ((hfirst x hx).of_outline houtline).symm
        rw [imageOf_cons, imageOf_cons, hkept, hbytes, himage', Nat.sub_zero, List.length_append,
          hlength]
        exact (overwritten_append_take hlength hplace _ _).symm
      · intro x hx
        rw [hframe' x fun y hy => hx y (List.mem_cons_of_mem _ hy),
          hframe x (hx b (List.mem_cons_self ..))]

/-- Writing replaces the bytes of the image from the offset on, until they end, and changes no other
byte. -/
theorem write_eq {c : Chain} {files : List TempFile} (h : c.Seated files)
    (hnodup : (files.map TempFile.handle).Nodup) {d : Disk} (hfiles : ∀ f ∈ files, f.Backed d)
    (offset : Nat) (bytes : List UInt8) :
    ∃ c' d', c.write files d offset bytes = ⟨(c', d'),
        if bytes.length = 0 ∨ offset + bytes.length ≤ c.size then .ok ()
        else .error (.outOfBounds offset bytes.length c.size)⟩ ∧
      c'.image files d' =
        overwritten (c.image files d) offset (bytes.take (c.size - offset)) ∧
      (c.size ≤ offset → c' = c ∧ d' = d) ∧
      Disk.Rewritten files d d' := by
  unfold write
  by_cases hempty : bytes.isEmpty = true
  · rw [if_pos hempty, List.isEmpty_iff.1 hempty, List.take_nil, if_pos (.inl rfl)]
    exact ⟨c, d, rfl, (overwritten_nil _ _).symm, fun _ => ⟨rfl, rfl⟩, .refl files d⟩
  · have hpos : 0 < bytes.length := List.length_pos_iff.2 (by simpa using hempty)
    rw [if_neg hempty]
    cases hfrom : c.blocksFrom offset with
    | nil =>
      have hpast := h.joint.blocksFrom_eq_nil_iff.1 hfrom
      rw [if_neg (by omega), Nat.sub_eq_zero_of_le hpast, List.take_zero]
      exact ⟨c, d, rfl, (overwritten_nil _ _).symm, fun _ => ⟨rfl, rfl⟩, .refl files d⟩
    | cons b rest =>
      -- the blocks before the offset are not written, and share no byte with one that is
      have hcut := h.cut d hfrom
      have hplaced := h.placed
      have hapart := h.apart
      rw [hcut.blocks] at hplaced hapart
      obtain ⟨-, hapart', hcross⟩ := List.pairwise_append.1 hapart
      have hstart := hcut.start_le
      have hlt := hcut.lt_finish
      have hafter := hcut.after
      have hinside : ∀ x, (b :: rest).head? = some x → offset - b.start ≤ x.size := by
        rintro x ⟨⟩
        omega
      obtain ⟨blocks', d', hwrite, himage, hframe, hrewritten⟩ := writeAlong_eq hnodup
        (Failure.outOfBounds offset bytes.length c.size)
        (fun x hx => hplaced x (List.mem_append_right _ hx)) hapart' hfiles hinside bytes
      refine ⟨{ c with blocks := c.blocksBefore offset ++ blocks' }, d', ?_, ?_, fun hpast => ?_,
        hrewritten⟩
      · simp only [hwrite, Outcome.onState]
        congr 1
        exact if_congr (by omega) rfl rfl
      · have hkept : imageOf files d' (c.blocksBefore offset) =
            imageOf files d (c.blocksBefore offset) :=
          imageOf_congr fun x hx => hframe x fun y hy => (hcross x hx y hy).symm
        have hroom : (imageOf files d (b :: rest)).length - (offset - b.start) =
            c.size - offset := by omega
        rw [hroom] at himage
        rw [hcut.overwritten, ← himage, image, imageOf_append, hkept]
      · rw [h.joint.blocksFrom_eq_nil_iff.2 hpast] at hfrom
        cases hfrom

/-- Writing inside a chain replaces those bytes of its image, and changes no other byte. -/
theorem write_spec {c : Chain} {files : List TempFile} (h : c.Seated files)
    (hnodup : (files.map TempFile.handle).Nodup) {d : Disk} (hfiles : ∀ f ∈ files, f.Backed d)
    {offset : Nat} {bytes : List UInt8} (hle : offset + bytes.length ≤ c.size) :
    ∃ c' d', c.write files d offset bytes = .ok (c', d') () ∧
      c'.image files d' = overwritten (c.image files d) offset bytes ∧
      Disk.Rewritten files d d' := by
  obtain ⟨c', d', hwrite, himage, -, hrewritten⟩ := write_eq h hnodup hfiles offset bytes
  rw [if_pos (.inr hle)] at hwrite
  rw [List.take_of_length_le (by omega)] at himage
  exact ⟨c', d', hwrite, himage, hrewritten⟩

/-- A store into a view replaces the bytes of the image that the view starts with. -/
theorem store_spec {c c' : Chain} {files : List TempFile} (h : c.Seated files) (d : Disk)
    {offset size : Nat} {bytes : List UInt8}
    (hstore : c.storeInMemory? offset size bytes = some c') :
    c'.image files d = overwritten (c.image files d) offset (bytes.take size) := by
  obtain ⟨b, rest, data, initial, hfrom, hbacking, hfits, rfl⟩ := storeInMemory?_some hstore
  have hcut := h.cut d hfrom
  have hmem : b ∈ c.blocks := by
    rw [hcut.blocks]
    simp
  have hlength := Block.length_bytes (h.placed b hmem) d
  have hstart := hcut.start_le
  have hlt := hcut.lt_finish
  have hfits' : (bytes.take size).length ≤ b.size - (offset - b.start) := by
    rw [List.length_take]
    omega
  have hinside : offset - b.start + (bytes.take size).length ≤ b.size := by omega
  have hslice := Buffer.slice_overwrite data 0 hinside
  rw [Nat.zero_add] at hslice
  rw [hcut.overwritten, imageOf_cons, overwritten_append (by omega), hlength,
    Nat.min_eq_right hfits',
    List.take_length, List.drop_length, overwritten_nil, image, imageOf_append, imageOf_cons]
  simp only [Block.bytes, hbacking, hslice]

/-! ## Growing -/

theorem image_pushMemory (c : Chain) (files : List TempFile) (d : Disk) (data : Buffer)
    (initial : Bool) :
    (c.pushMemory data initial).image files d = c.image files d ++ data.toList := by
  by_cases hzero : data.size = 0
  · have hempty : data.toList = [] := by
      rw [Buffer.toList, hzero]
      rfl
    rw [pushMemory, if_pos hzero, hempty, List.append_nil]
  · rw [pushMemory_of_pos (Nat.pos_of_ne_zero hzero), image, imageOf_append]
    congr 1
    rw [imageOf, List.flatMap_cons, List.flatMap_nil, List.append_nil]
    rfl

/-- An extent that reads as zeros, appended to a chain whose blocks read as before. -/
theorem image_pushFile {c : Chain} {files grown : List TempFile} {d d' : Disk}
    (hkept : ∀ b ∈ c.blocks, b.bytes grown d' = b.bytes files d) {file offset amount : Nat}
    {f : TempFile} (hf : grown[file]? = some f)
    (hzero : (d'.content f.handle).slice offset amount = List.replicate amount 0) :
    (c.pushFile file offset amount).2.image grown d' =
      c.image files d ++ List.replicate amount 0 := by
  rcases c.pushFile_cases file offset amount with
    ⟨front, last, start, hblocks, hbacking, hend, heq⟩ | heq
  · have hlast := hkept last (by rw [hblocks]; simp)
    have hfront : imageOf grown d' front = imageOf files d front :=
      imageOf_congr fun b hb => hkept b (by rw [hblocks]; exact List.mem_append_left _ hb)
    rw [heq, image, image, hblocks, imageOf_append, imageOf_append, hfront, List.append_assoc]
    congr 1
    simp only [imageOf, List.flatMap_cons, List.flatMap_nil, List.append_nil]
    rw [← hlast]
    simp only [Block.bytes, hbacking, hf]
    rw [Buffer.slice_append, hend, hzero]
  · rw [heq, image, image, imageOf_append, imageOf_congr hkept]
    congr 1
    simp only [imageOf, List.flatMap_cons, List.flatMap_nil, List.append_nil, Block.bytes, hf]
    exact hzero

end Chain

end SpillStorage
