import SpillStorage.Proofs.Chain.Checked
import SpillStorage.Proofs.Space.Housed

/-!
Chains on the spill files that they were built over.

What is proved:
  1. `Sound.perform` and `sound_run`: whatever is appended, empty extents among it, and whatever is
     written, the chain stays seated over its files, and the files on the disk.
  2. `transfers_exact`: so lookup finds the one block that holds an offset, and reading and writing
     move the bytes up to the end of the chain, and no others.
-/

namespace SpillStorage

/-- A chain, the spill files behind its blocks, and the host that the files are on. -/
structure Storage where
  chain : Chain
  files : SpillFiles
  host : Host

namespace Storage

/-- What is done to a chain. -/
inductive Step where
  /-- A buffer is appended. -/
  | pushMemory (data : Buffer) (initial : Bool)
  /-- Bytes are claimed in a spill file, and if they are granted, the extent is appended. -/
  | pushFile (size : Nat)
  | write (offset : Nat) (bytes : List UInt8)

/-- No blocks, and no files yet. -/
def new (stem : FilePrefix) (host : Host) : Storage := ⟨.empty, .empty stem, host⟩

def perform (σ : Storage) : Step → Storage
  | .pushMemory data initial => { σ with chain := σ.chain.pushMemory data initial }
  | .pushFile size =>
    let claim := σ.files.claim σ.host size
    match claim.answer with
    | .ok extent =>
      ⟨(σ.chain.pushFile extent.file extent.offset size).2, claim.state.1, claim.state.2⟩
    | .error _ => ⟨σ.chain, claim.state.1, claim.state.2⟩
  | .write offset bytes =>
    let written := (σ.chain.write σ.files.files σ.host.disk offset bytes).state
    ⟨written.1, σ.files, { σ.host with disk := written.2 }⟩

def run (σ : Storage) (steps : List Step) : Storage := steps.foldl perform σ

/-- The chain is seated over files that are on the disk. -/
structure Sound (others : Nat → Prop) (σ : Storage) : Prop where
  seated : σ.chain.Seated σ.files.files
  housed : Housed others σ.files.files σ.host.disk

variable {others : Nat → Prop} {σ : Storage}

theorem sound_new (stem : FilePrefix) (host : Host) :
    Sound (fun handle => (host.disk.content? handle).isSome) (new stem host) := by
  refine ⟨Chain.seated_empty, ⟨?_, List.nodup_nil, ?_, ?_⟩⟩
  · simp [new, SpillFiles.empty]
  · simp [new, SpillFiles.empty]
  · simp [new, SpillFiles.empty]

theorem Sound.perform (h : Sound others σ) (step : Step) : Sound others (σ.perform step) := by
  cases step with
  | pushMemory data initial => exact ⟨h.seated.pushMemory data initial, h.housed⟩
  | pushFile size =>
    unfold Storage.perform
    cases hclaim : (σ.files.claim σ.host size).answer with
    | error reason =>
      simp only [hclaim, SpillFiles.claim_error hclaim]
      exact h
    | ok extent =>
      have hclaims := SpillFiles.claim_ok hclaim
      simp only [hclaim]
      exact ⟨h.seated.pushFile hclaims, (hclaims.claimed h.housed).housed⟩
  | write offset bytes =>
    have houtline :=
      Chain.outline_write h.seated.buffers σ.files.files σ.host.disk offset bytes
    obtain ⟨c', d', hwrite, -, -, hrewritten⟩ :=
      Chain.write_eq h.seated h.housed.distinct h.housed.backed offset bytes
    refine ⟨h.seated.of_outline houtline, ?_⟩
    simp only [Storage.perform, hwrite]
    exact (Space.housed_of_rewritten h.housed hrewritten).1

theorem sound_run (h : Sound others σ) (steps : List Step) : Sound others (σ.run steps) := by
  induction steps generalizing σ with
  | nil => exact h
  | cons step rest ih => exact ih (h.perform step)

/-- What lookup, reading and writing do in a chain that was built in any number of steps, of memory
blocks and extents of any size, none at all included. The blocks lie end to end, and each shows its
part of one array of bytes. Lookup finds the only block that holds the offset, and nothing from the
end of the chain on. Reading gives the bytes of the array from the offset on: as many as were asked
for if these lie inside the chain, and else those up to its end, and then it is out of bounds.
Writing likewise replaces the bytes of the array from the offset on and changes no other byte, no
block and no other file; from the end of the chain on it changes nothing. In a chain shorter than
`2 ^ 64` bytes no index, slice, sum or difference on the way is out of range. -/
theorem transfers_exact (stem : FilePrefix) (host : Host) (steps : List Step) :
    let σ := (new stem host).run steps
    let c := σ.chain
    let files := σ.files.files
    let d := σ.host.disk
    let image := c.image files d
    (EndToEnd 0 (c.blocks.map Block.span) c.size ∧ image.length = c.size ∧
      ∀ b ∈ c.blocks, b.bytes files d = (image.drop b.start).take b.size) ∧
    (∀ offset,
      (∀ index, c.find? offset = some index ↔
        ∃ b, c.blocks[index]? = some b ∧ b.start ≤ offset ∧ offset < b.finish) ∧
      (c.find? offset = none ↔ c.size ≤ offset)) ∧
    (∀ offset length, c.read files d offset length = ⟨(image.drop offset).take length,
      if length = 0 ∨ offset + length ≤ c.size then none
      else some (.outOfBounds offset length c.size)⟩) ∧
    (∀ offset bytes, ∃ c' d', c.write files d offset bytes = ⟨(c', d'),
        if bytes.length = 0 ∨ offset + bytes.length ≤ c.size then .ok ()
        else .error (.outOfBounds offset bytes.length c.size)⟩ ∧
      c'.image files d' = overwritten image offset (bytes.take (c.size - offset)) ∧
      (∀ b ∈ c'.blocks, b.bytes files d' = ((c'.image files d').drop b.start).take b.size) ∧
      c'.outline = c.outline ∧ (∀ f ∈ files, f.Backed d') ∧
      (∀ handle, handle ∉ files.map TempFile.handle → d'.content? handle = d.content? handle) ∧
      (c.size ≤ offset → c' = c ∧ d' = d)) ∧
    (c.size < Offset.bound → ∀ offset, c.findChecked offset = some (c.find? offset) ∧
      (∀ length, c.readChecked files d offset length = some (c.read files d offset length)) ∧
      ∀ bytes, c.writeChecked files d offset bytes = some (c.write files d offset bytes)) := by
  intro σ c files d image
  obtain ⟨hseated, hhoused⟩ : Sound _ σ := sound_run (sound_new stem host) steps
  have hseated : c.Seated files := hseated
  have hbacked := hhoused.backed
  have hjoint := hseated.joint
  refine ⟨⟨hjoint, hseated.length_image d, fun b => hseated.bytes_eq d⟩, fun offset => ⟨?_, ?_⟩,
    ?_, fun offset bytes => ?_, fun hsize offset => ⟨?_, ?_, ?_⟩⟩
  · exact fun index => hjoint.find?_eq_some_iff
  · exact hjoint.find?_eq_none_iff
  · exact Chain.read_eq hseated hbacked
  · have houtline := Chain.outline_write hseated.buffers files d offset bytes
    obtain ⟨c', d', hwrite, himage, hpast, hrewritten⟩ :=
      Chain.write_eq hseated hhoused.distinct hbacked offset bytes
    rw [hwrite] at houtline
    exact ⟨c', d', hwrite, himage, fun b => (hseated.of_outline houtline).bytes_eq d', houtline,
      fun f hf => hrewritten.backed f hf (hbacked f hf), hrewritten.elsewhere, hpast⟩
  · exact Chain.findChecked_eq hjoint hsize offset
  · exact Chain.readChecked_eq hseated hbacked hsize offset
  · exact Chain.writeChecked_eq hseated hhoused.distinct hbacked hsize offset

/-- An empty block in a file between two buffers, and an extent behind them that started empty. The
second buffer is found past the empty block, and bytes were written across it. Reading goes on to
the end of the chain and is out of bounds there, and so is writing. -/
theorem transfers_exact_past_empty :
    let σ := (new ⟨"s", by decide⟩ ⟨⟨Settings.exact [⟨Path.ofString "/tmp", none⟩] 0, 0, [0], 0⟩,
      Disk.standard, 64⟩).run [.pushMemory (Buffer.ofList [1, 2, 3, 4]) true, .pushFile 0,
        .pushMemory (Buffer.ofList [5, 6, 7, 8]) false, .pushFile 0, .pushFile 8,
        .write 2 [10, 11, 12]]
    let c := σ.chain
    let files := σ.files.files
    let d := σ.host.disk
    c.blocks.map Block.span = [⟨0, 4⟩, ⟨4, 0⟩, ⟨4, 4⟩, ⟨8, 8⟩] ∧
      c.findChecked 4 = some (some 2) ∧
      c.readChecked files d 3 20 = some ⟨[11, 12, 6, 7, 8, 0, 0, 0, 0, 0, 0, 0, 0],
        some (.outOfBounds 3 20 16)⟩ ∧
      ∃ c' d', c.writeChecked files d 14 [1, 2, 3] =
          some ⟨(c', d'), .error (.outOfBounds 14 3 16)⟩ ∧
        c'.image files d' = overwritten (c.image files d) 14 [1, 2] := by
  intro σ c files d
  obtain ⟨-, hfind, hread, hwrite, hchecked⟩ := transfers_exact ⟨"s", by decide⟩
    ⟨⟨Settings.exact [⟨Path.ofString "/tmp", none⟩] 0, 0, [0], 0⟩, Disk.standard, 64⟩
    [.pushMemory (Buffer.ofList [1, 2, 3, 4]) true, .pushFile 0,
      .pushMemory (Buffer.ofList [5, 6, 7, 8]) false, .pushFile 0, .pushFile 8,
      .write 2 [10, 11, 12]]
  have hspans : c.blocks.map Block.span = [⟨0, 4⟩, ⟨4, 0⟩, ⟨4, 4⟩, ⟨8, 8⟩] := by decide +kernel
  have hsize : c.size = 16 := by decide +kernel
  have himage : c.image files d = [1, 2, 10, 11, 12, 6, 7, 8, 0, 0, 0, 0, 0, 0, 0, 0] := by
    decide +kernel
  have hbound : c.size < Offset.bound := by
    rw [hsize]
    decide
  obtain ⟨b, hb, hspan⟩ : ∃ b, c.blocks[2]? = some b ∧ b.span = ⟨4, 4⟩ := by
    have hthird := congrArg (·[2]?) hspans
    simp only [List.getElem?_map] at hthird
    exact Option.map_eq_some_iff.1 hthird
  obtain ⟨hstart, hlength⟩ := Segment.mk.inj hspan
  have hfound : c.find? 4 = some 2 := by
    refine ((hfind 4).1 2).2 ⟨b, hb, ?_, ?_⟩
    · rw [hstart]
    · rw [Block.finish, hstart, hlength]
      decide
  obtain ⟨c', d', hwrites, hshown, -⟩ := hwrite 14 [1, 2, 3]
  refine ⟨hspans, ?_, ?_, c', d', ?_, ?_⟩
  · rw [(hchecked hbound 4).1, hfound]
  · rw [(hchecked hbound 3).2.1 20, hread 3 20, himage, hsize]
    rfl
  · rw [(hchecked hbound 14).2.2 [1, 2, 3], hwrites, hsize]
    rfl
  · rw [hshown, hsize]
    rfl

end Storage

end SpillStorage
