import SpillStorage.Proofs.Session.History

/-!
Where the bytes of a space lie.

What is proved:
  1. `Claims.keeps`: a claim that is met takes no byte from a file that is there.
  2. `blocks_and_files_tiled`: at any point of a session, the blocks of a space tile its addresses,
     and the extents in each of its files tile the file. So no two blocks share a byte, and growth
     takes no byte from a block.
-/

namespace SpillStorage

/-- After a claim that is met a file is at its place and as long as is claimed of it, no shorter
than it was, and starts with the bytes that it had. -/
theorem SpillFiles.Claims.keeps {others : Nat → Prop} {s s' : SpillFiles} {h h' : Host} {size : Nat}
    {extent : Extent} (hclaims : Claims s h size s' h' extent) (hs : Housed others s.files h.disk)
    {place : Nat} {f : TempFile} (hf : s.files[place]? = some f) :
    ∃ greater content, f.size ≤ greater ∧ s'.files[place]? = some { f with size := greater } ∧
      h'.disk.content? f.handle = some content ∧ content.size = greater ∧
      content.slice 0 f.size = (h.disk.content f.handle).toList := by
  have hclaimed := hclaims.claimed hs
  obtain ⟨greater, hle, hg⟩ := hclaims.prolongs place f hf
  have hbacked := hclaimed.housed.backed _ (List.mem_of_getElem? hg)
  obtain ⟨content, hcontent⟩ := Option.isSome_iff_exists.1 hbacked.exists_content
  have hsame : h'.disk.content f.handle = content := Disk.content_of_content? hcontent
  refine ⟨greater, content, hle, hg, hcontent, ?_, ?_⟩
  · rw [← hsame]
    exact hbacked.size
  · obtain ⟨g, hg', hslices⟩ := hclaimed.kept place f hf
    rw [hg] at hg'
    cases hg'
    have hslice := hslices 0 f.size (Nat.le_of_eq (Nat.zero_add _))
    rw [← hsame, hslice, Buffer.toList, (hs.backed f (List.mem_of_getElem? hf)).size]

namespace Chain

variable {c : Chain} {files : List TempFile}

/-- Different blocks are apart, whichever comes first. -/
theorem Seated.apart_of_ne (h : c.Seated files) {i j : Nat} (hne : i ≠ j) {b x : Block}
    (hb : c.blocks[i]? = some b) (hx : c.blocks[j]? = some x) : b.Apart x := by
  obtain ⟨hi, rfl⟩ := List.getElem?_eq_some_iff.1 hb
  obtain ⟨hj, rfl⟩ := List.getElem?_eq_some_iff.1 hx
  rcases Nat.lt_or_gt_of_ne hne with hlt | hgt
  · exact List.pairwise_iff_getElem.1 h.apart i j hi hj hlt
  · exact (List.pairwise_iff_getElem.1 h.apart j i hj hi hgt).symm

/-- Only the first block can be the caller's. -/
theorem Layout.place_of_initial (h : c.Layout files) {place : Nat} {b : Block}
    (hb : c.blocks[place]? = some b) (hinitial : b.isInitial = true) : place = 0 := by
  cases place with
  | zero => rfl
  | succ place =>
    have hmem : b ∈ c.blocks.tail := List.mem_of_getElem? (List.getElem?_tail.trans hb)
    rw [h.initial b hmem] at hinitial
    cases hinitial

end Chain

namespace Session

/-- Where the bytes of a space lie, at any point of a session, for the space of any tenant. Its
blocks tile its addresses in order, a buffer is as long as its block, and only the first block can
be the caller's. A block in a file lies in a file that there is; for each file, the extents of the
blocks in it tile it in the order of the chain, and the file on the disk is as long as is claimed of
it. Hence no two blocks share a byte behind a handle, and what is written into one block is seen in
it and in no other. A claim that is met starts behind all that the blocks have of the file; what
gets longer by it shows zeros there, and all blocks show what they did. Neither such a claim nor one
that is refused takes a byte from a file. -/
theorem blocks_and_files_tiled {settings : Settings} {registry : Registry}
    (hregistry : Registry.ofSettings settings = .ok registry) (disk : Disk) (heap : Nat)
    (actions : List Action) {name : String} {l : Lodging}
    (hl : ((ofHost ⟨registry, disk, heap⟩).run actions).lodging? name = some l) :
    let h := ((ofHost ⟨registry, disk, heap⟩).run actions).hostOf l
    let s := l.tenant.inner
    let blocks := s.chain.blocks
    let files := s.files.files
    (Tiles 0 (blocks.map Block.span) s.physicalSize ∧
      (∀ b ∈ blocks, ∀ data initial, b.backing = .memory data initial → data.size = b.size) ∧
      ∀ (place : Nat) (b : Block), blocks[place]? = some b → b.isInitial = true → place = 0) ∧
    ((∀ b ∈ blocks, ∀ file offset, b.backing = .file file offset → file < files.length) ∧
      ∀ (place : Nat) (f : TempFile), files[place]? = some f →
        Tiles 0 (s.chain.extents place) f.size ∧
        ∃ content, h.disk.content? f.handle = some content ∧ content.size = f.size) ∧
    (∀ (i j : Nat) (b x : Block), i ≠ j → blocks[i]? = some b → blocks[j]? = some x →
      (∀ file offset other start, b.backing = .file file offset → x.backing = .file other start →
        ∀ f g, files[file]? = some f → files[other]? = some g → f.handle = g.handle →
          offset + b.size ≤ start ∨ start + x.size ≤ offset) ∧
      ∀ place bytes, place + bytes.length ≤ b.size →
        ∃ b' d', b.write files h.disk place bytes = .ok (b', d') () ∧
          b'.bytes files d' = overwritten (b.bytes files h.disk) place bytes ∧
          x.bytes files d' = x.bytes files h.disk) ∧
    ∀ amount,
      let claim := s.files.claim h amount
      (∀ extent, claim.answer = .ok extent →
        let grown := claim.state.1.files
        let d' := claim.state.2.disk
        (∀ b ∈ blocks, ∀ offset, b.backing = .file extent.file offset →
          offset + b.size ≤ extent.offset) ∧
        (∀ b ∈ blocks, b.bytes grown d' = b.bytes files h.disk) ∧
        (s.chain.pushFile extent.file extent.offset amount).2.image grown d' =
          s.image h.disk ++ List.replicate amount 0 ∧
        ∀ (place : Nat) (f : TempFile), files[place]? = some f →
          ∃ greater content, f.size ≤ greater ∧ grown[place]? = some { f with size := greater } ∧
            d'.content? f.handle = some content ∧ content.size = greater ∧
            content.slice 0 f.size = (h.disk.content f.handle).toList) ∧
      ∀ reason, claim.answer = .error reason → claim.state = (s.files, h) := by
  intro h s blocks files
  obtain ⟨hs, others, hhoused⟩ := stands_run hregistry disk heap actions hl
  have hlayout : s.chain.Layout files := hs.layout
  have hseated := hlayout.seated
  have hbacked := hhoused.backed
  refine ⟨⟨hlayout.spans, hlayout.buffers, fun place b => hlayout.place_of_initial⟩,
    ⟨?_, fun place f hf => ⟨?_, ?_⟩⟩, fun i j b x hne hb hx => ⟨?_, ?_⟩, fun amount => ⟨?_, ?_⟩⟩
  · intro b hb file offset hfile
    obtain ⟨f, hf, -⟩ := hseated.file_exists hb hfile
    exact (List.getElem?_eq_some_iff.1 hf).1
  · have htiles := hlayout.extents place
    rwa [sizeAt, hf] at htiles
  · have hfile := hbacked f (List.mem_of_getElem? hf)
    obtain ⟨content, hcontent⟩ := Option.isSome_iff_exists.1 hfile.exists_content
    exact ⟨content, hcontent, Disk.content_of_content? hcontent ▸ hfile.size⟩
  · intro file offset other start hfile hother f g hf hg hsame
    exact (hseated.apart_of_ne hne hb hx).ranges hhoused.distinct hfile hother hf hg hsame
  · intro place bytes hfits
    obtain ⟨b', d', hwrite, -, hbytes, hframe, -⟩ := Block.write_spec hbacked hhoused.distinct
      (hseated.placed b (List.mem_of_getElem? hb)) hfits
    exact ⟨b', d', hwrite, hbytes, hframe x (hseated.apart_of_ne hne hb hx)⟩
  · intro extent hclaim grown d'
    have hclaims := SpillFiles.claim_ok hclaim
    have hclaimed := hclaims.claimed hhoused
    refine ⟨fun b hb offset hfile => ?_, fun b hb => hclaimed.bytes (hseated.placed b hb),
      hclaimed.image hseated.placed, fun place f => hclaims.keeps hhoused⟩
    obtain ⟨f, hf, hle⟩ := hseated.file_exists hb hfile
    rwa [hclaims.sizeAt.1, sizeAt, hf]
  · intro reason hrefused
    exact SpillFiles.claim_error hrefused

/-- A caller's buffer, a buffer of the space, and four extents. The first directory has room for 24
bytes, so that growth goes on to the second one, back to the first, and on to the second again. The
parts of the second file that are behind different blocks are told apart, and the next claim starts
behind both. -/
theorem blocks_and_files_tiled_in_turns :
    let directories : List TempDirectory := [⟨Path.ofString "/a", some 24⟩,
      ⟨Path.ofString "/b", none⟩]
    let actions : List Action := [.makeDirectory (Path.ofString "/a"),
      .makeDirectory (Path.ofString "/b"),
      .openSpace "s" true { options := { initial := some (Buffer.zeros 4) } },
      .onSpace "s" (.extend 8), .onSpace "s" (.extend 16), .onSpace "s" (.extend 16),
      .onSpace "s" (.extend 8), .onSpace "s" (.extend 8)]
    let σ := (ofHost ⟨⟨Settings.exact directories 4, 0, [0, 0], 0⟩, Disk.standard, 64⟩).run actions
    ∃ l, σ.lodging? "s" = some l ∧
      let h := σ.hostOf l
      let s := l.tenant.inner
      Tiles 0 [⟨0, 4⟩, ⟨4, 4⟩, ⟨8, 16⟩, ⟨24, 16⟩, ⟨40, 8⟩, ⟨48, 8⟩] s.physicalSize ∧
      (∃ f content, s.files.files[1]? = some f ∧ Tiles 0 [⟨0, 16⟩, ⟨16, 8⟩] f.size ∧
        h.disk.content? f.handle = some content ∧ content.size = f.size) ∧
      (∃ b x b' d', s.chain.blocks[3]? = some b ∧ s.chain.blocks[5]? = some x ∧
        b.write s.files.files h.disk 14 [7, 8] = .ok (b', d') () ∧
        x.bytes s.files.files d' = x.bytes s.files.files h.disk) ∧
      (s.chain.pushFile 1 24 8).2.image (s.files.claim h 8).state.1.files
        (s.files.claim h 8).state.2.disk = s.image h.disk ++ List.replicate 8 0 := by
  intro directories actions σ
  have hvalid : (Settings.exact directories 4).validate = .ok () :=
    eq_ok_of_toOption (by decide +kernel)
  have hregistry : Registry.ofSettings (Settings.exact directories 4) =
      .ok ⟨Settings.exact directories 4, 0, [0, 0], 0⟩ := by
    rw [Registry.ofSettings, hvalid]
    rfl
  have hopen : (σ.lodging? "s").isSome := by decide +kernel
  obtain ⟨l, hl⟩ := Option.isSome_iff_exists.1 hopen
  have hparts : (σ.lodging? "s").map (fun l =>
      let c := l.tenant.inner.chain
      (c.blocks.map Block.span, c.extents 1,
        (l.tenant.inner.files.claim (σ.hostOf l) 8).answer.toOption,
        l.tenant.inner.files.files.length)) =
      some ([⟨0, 4⟩, ⟨4, 4⟩, ⟨8, 16⟩, ⟨24, 16⟩, ⟨40, 8⟩, ⟨48, 8⟩], [⟨0, 16⟩, ⟨16, 8⟩],
        some ⟨1, 24⟩, 2) := by
    decide +kernel
  rw [hl] at hparts
  obtain ⟨hspans, hrest⟩ := Prod.mk.inj (Option.some.inj hparts)
  obtain ⟨hextents, hrest⟩ := Prod.mk.inj hrest
  obtain ⟨hclaim, hlength⟩ := Prod.mk.inj hrest
  obtain ⟨⟨htiles, -⟩, ⟨-, hfiles⟩, hdistinct, hgrowth⟩ :=
    blocks_and_files_tiled hregistry Disk.standard 64 actions hl
  have hblocks : l.tenant.inner.chain.blocks.length = 6 := by
    simpa using congrArg List.length hspans
  obtain ⟨f, hf⟩ : ∃ f, l.tenant.inner.files.files[1]? = some f :=
    ⟨_, List.getElem?_eq_getElem (by omega)⟩
  obtain ⟨b, hb⟩ : ∃ b, l.tenant.inner.chain.blocks[3]? = some b :=
    ⟨_, List.getElem?_eq_getElem (by omega)⟩
  obtain ⟨x, hx⟩ : ∃ x, l.tenant.inner.chain.blocks[5]? = some x :=
    ⟨_, List.getElem?_eq_getElem (by omega)⟩
  have hsize : b.size = 16 := by
    have hspan := congrArg (·[3]?) hspans
    simp only [List.getElem?_map, hb] at hspan
    exact congrArg Segment.size (Option.some.inj hspan)
  refine ⟨l, hl, ?_, ?_, ?_, ?_⟩
  · rw [← hspans]
    exact htiles
  · obtain ⟨hfile, content, hcontent, hreal⟩ := hfiles 1 f hf
    rw [hextents] at hfile
    exact ⟨f, content, hf, hfile, hcontent, hreal⟩
  · obtain ⟨b', d', hwrite, -, hsame⟩ :=
      (hdistinct 3 5 b x (by decide) hb hx).2 14 [7, 8] (by rw [hsize]; decide)
    exact ⟨b, x, b', d', hb, hx, hwrite, hsame⟩
  · exact ((hgrowth 8).1 ⟨1, 24⟩ (eq_ok_of_toOption hclaim)).2.2.1

end Session

end SpillStorage
