import SpillStorage.Proofs.Chain.Image
import SpillStorage.Proofs.Space.Change

/-!
A space on a disk that it shares with others.

What is proved, for a sound space whose files are on the disk:
  1. `Change.housed`: after every change its files are on the disk still, and what lies behind the
     handles of others is as it was.
  2. `Quiet.image`: a quiet change only appends zeros to the bytes of the space.
  3. `read_spec`, `write_spec` and `store_spec`: reading and writing are those of one array.
-/

namespace SpillStorage

/-- The files are on the disk under handles of their own, next to those of others. -/
structure Housed (others : Nat → Prop) (files : List TempFile) (d : Disk) : Prop where
  backed : ∀ f ∈ files, f.Backed d
  distinct : (files.map TempFile.handle).Nodup
  present : ∀ handle, (d.content? handle).isSome ↔
    handle ∈ files.map TempFile.handle ∨ others handle
  apart : ∀ handle ∈ files.map TempFile.handle, ¬ others handle

namespace SpillFiles

/-- What a claim that is met does to the disk. -/
structure Claimed (others : Nat → Prop) (s s' : SpillFiles) (d d' : Disk) (extent : Extent)
    (size : Nat) : Prop where
  housed : Housed others s'.files d'
  elsewhere : ∀ handle, others handle → d'.content? handle = d.content? handle
  /-- The bytes claimed before read the same. -/
  kept : ∀ (place : Nat) (f : TempFile), s.files[place]? = some f →
    ∃ g : TempFile, s'.files[place]? = some g ∧ ∀ offset length, offset + length ≤ f.size →
      (d'.content g.handle).slice offset length = (d.content f.handle).slice offset length
  /-- The bytes claimed now read as zeros. -/
  zeros : ∃ f : TempFile, s'.files[extent.file]? = some f ∧
    (d'.content f.handle).slice extent.offset size = List.replicate size 0

/-! ### A file that gets longer -/

/-- The disk after a file is lengthened. -/
def lengthened (d : Disk) (f : TempFile) (size : Nat) : Disk :=
  d.setContent f.handle ((d.content f.handle).resize (f.size + size))

variable {d : Disk} {f : TempFile}

theorem content?_lengthened {handle : Nat} (size : Nat) (hne : handle ≠ f.handle) :
    (lengthened d f size).content? handle = d.content? handle := by
  rw [lengthened, Disk.content?_setContent, if_neg hne]

theorem isSome_lengthened (d : Disk) (f : TempFile) (size handle : Nat) :
    ((lengthened d f size).content? handle).isSome = (d.content? handle).isSome := by
  rw [lengthened, Disk.content?_setContent]
  split
  · next heq => rw [heq, Option.isSome_map]
  · rfl

theorem content_lengthened (hf : f.Backed d) (size : Nat) :
    (lengthened d f size).content f.handle = (d.content f.handle).resize (f.size + size) :=
  Block.content_setContent_self hf _

theorem backed_lengthened (hf : f.Backed d) {size : Nat}
    (hle : f.size + size ≤ f.greatest) :
    TempFile.Backed { f with size := f.size + size } (lengthened d f size) := by
  have hsize := hf.size
  refine ⟨?_, ?_, ?_, hle⟩
  · simp only [content_lengthened hf]
    rfl
  · rw [isSome_lengthened]
    exact hf.exists_content
  · intro i hi
    simp only at hi
    simp only [content_lengthened hf]
    rw [Buffer.byteAt_resize, if_neg (by omega)]
    exact hf.zero_past i (by omega)

/-- What does not depend on the size of a file is the same when one gets longer. -/
theorem map_lengthened {α : Type} (g : TempFile → α)
    (hsame : ∀ size, g { f with size := size } = g f) {files : List TempFile} {place : Nat}
    (hfile : files[place]? = some f) (size : Nat) :
    (files.set place { f with size := f.size + size }).map g = files.map g := by
  obtain ⟨hlt, rfl⟩ := List.getElem?_eq_some_iff.1 hfile
  apply List.ext_getElem?
  intro i
  simp only [List.getElem?_map, List.getElem?_set]
  by_cases heq : place = i
  · subst heq
    simp [hlt, hsame]
  · rw [if_neg heq]

theorem housed_lengthened {others : Nat → Prop} {files : List TempFile} (h : Housed others files d)
    {place size : Nat} (hfile : files[place]? = some f)
    (hle : f.size + size ≤ f.greatest) :
    Housed others (files.set place { f with size := f.size + size }) (lengthened d f size) := by
  have hbacked := h.backed f (List.mem_of_getElem? hfile)
  obtain ⟨hlt, -⟩ := List.getElem?_eq_some_iff.1 hfile
  refine ⟨?_, ?_, ?_, ?_⟩
  · intro g hg
    obtain ⟨i, hi⟩ := List.mem_iff_getElem?.1 hg
    rw [List.getElem?_set] at hi
    by_cases heq : place = i
    · rw [if_pos heq, if_pos hlt] at hi
      cases hi
      exact backed_lengthened hbacked hle
    · rw [if_neg heq] at hi
      have hne : g.handle ≠ f.handle := fun hsame =>
        heq (TempFile.eq_of_handle h.distinct hfile hi hsame.symm)
      exact (h.backed g (List.mem_of_getElem? hi)).congr (content?_lengthened size hne)
  · rw [map_lengthened TempFile.handle (fun _ => rfl) hfile]
    exact h.distinct
  · intro handle
    rw [map_lengthened TempFile.handle (fun _ => rfl) hfile, isSome_lengthened]
    exact h.present handle
  · rw [map_lengthened TempFile.handle (fun _ => rfl) hfile]
    exact h.apart

/-- The file at a place grows by bytes that read as zeros. -/
theorem claimed_lengthened {others : Nat → Prop} {s : SpillFiles} (h : Housed others s.files d)
    {place size : Nat} (hfile : s.files[place]? = some f)
    (hle : f.size + size ≤ f.greatest) :
    Claimed others s { s with files := s.files.set place { f with size := f.size + size } } d
      (lengthened d f size) ⟨place, f.size⟩ size := by
  have hmem := List.mem_of_getElem? hfile
  have hbacked := h.backed f hmem
  have hsize := hbacked.size
  obtain ⟨hlt, -⟩ := List.getElem?_eq_some_iff.1 hfile
  refine ⟨housed_lengthened h hfile hle, fun handle hother => ?_, fun i g hg => ?_, ?_⟩
  · refine content?_lengthened size ?_
    rintro rfl
    exact h.apart _ (List.mem_map_of_mem hmem) hother
  -- the file itself shows its old bytes, being resized only; other files have other handles
  · by_cases heq : place = i
    · subst heq
      rw [hfile] at hg
      cases hg
      refine ⟨{ f with size := f.size + size },
        by simp only [List.getElem?_set, if_true, hlt], fun offset length _ => ?_⟩
      simp only [content_lengthened hbacked]
      exact Buffer.slice_resize _ (by omega) _ _
    · have hne : g.handle ≠ f.handle := fun hsame =>
        heq (TempFile.eq_of_handle h.distinct hfile hg hsame.symm)
      refine ⟨g, by simp only [List.getElem?_set, heq, if_false, hg], fun offset length _ => ?_⟩
      rw [Disk.content_congr (content?_lengthened size hne)]
  · refine ⟨{ f with size := f.size + size },
      by simp only [List.getElem?_set, if_true, hlt], ?_⟩
    simp only [content_lengthened hbacked]
    apply Buffer.slice_zero
    intro i hle _
    rw [Buffer.byteAt_resize, if_neg (by omega)]
    exact hbacked.zero_past i hle

/-! ### A new file -/

/-- A new file of zeros is all that the disk has got. -/
theorem content?_created {disk : Disk} {directory : Path} {name : List UInt8} {handle : Nat}
    {greatest : FileLength} (hcreated : d.createTemp directory name = .ok (handle, greatest, disk))
    (size other : Nat) :
    (disk.setContent handle (Buffer.zeros size)).content? other =
      if other = handle then some (Buffer.zeros size) else d.content? other := by
  obtain ⟨-, -, hdisk⟩ := Disk.createTemp_ok hcreated
  rw [Disk.content?_setContent, hdisk, hdisk, if_pos rfl]
  split <;> rfl

/-- A disk that differs in one file of zeros, behind a handle that led nowhere. -/
theorem housed_created {others : Nat → Prop} {files : List TempFile} (h : Housed others files d)
    {d' : Disk} {handle size : Nat} {greatest : FileLength} (hnone : d.content? handle = none)
    (hd' : ∀ other, d'.content? other =
      if other = handle then some (Buffer.zeros size) else d.content? other)
    (hle : size ≤ greatest) (path : Path) (index : Nat) :
    Housed others (files ++ [⟨handle, path, index, greatest, size⟩]) d' := by
  -- a handle that leads nowhere is nobody's
  have hfresh : handle ∉ files.map TempFile.handle ∧ ¬ others handle := by
    rw [← not_or, ← h.present, hnone]
    simp
  have hself : d'.content handle = Buffer.zeros size :=
    Disk.content_of_content? (by rw [hd', if_pos rfl])
  have hhandles :
      (files ++ [(⟨handle, path, index, greatest, size⟩ : TempFile)]).map TempFile.handle =
        files.map TempFile.handle ++ [handle] := List.map_append
  refine ⟨?_, ?_, ?_, ?_⟩
  · intro g hg
    rcases List.mem_append.1 hg with hg | hg
    · have hne : g.handle ≠ handle := fun heq => hfresh.1 (heq ▸ List.mem_map_of_mem hg)
      apply (h.backed g hg).congr
      rw [hd', if_neg hne]
    · rw [List.mem_singleton.1 hg]
      refine ⟨?_, ?_, ?_, hle⟩
      · simp only [hself]
        rfl
      · rw [hd', if_pos rfl]
        rfl
      · intro i _
        simp only [hself]
        exact Buffer.byteAt_zeros _ _
  · rw [hhandles, List.nodup_append]
    refine ⟨h.distinct, List.nodup_singleton _, ?_⟩
    rintro a ha b hb rfl
    rw [List.mem_singleton.1 hb] at ha
    exact hfresh.1 ha
  · intro other
    simp only [hhandles, hd', List.mem_append, List.mem_singleton]
    split
    · next heq => simp [heq]
    · next hne => simp [hne, h.present]
  · rw [hhandles]
    intro other hother
    rcases List.mem_append.1 hother with hother | hother
    · exact h.apart other hother
    · rw [List.mem_singleton.1 hother]
      exact hfresh.2

/-- A new file reads as zeros. -/
theorem claimed_created {others : Nat → Prop} {s : SpillFiles} (h : Housed others s.files d)
    {disk : Disk} {directory : Path} {name : List UInt8} {handle size index : Nat} {path : Path}
    {greatest : FileLength} (hcreated : d.createTemp directory name = .ok (handle, greatest, disk))
    (hle : size ≤ greatest) :
    Claimed others s { s with files := s.files ++ [⟨handle, path, index, greatest, size⟩] } d
      (disk.setContent handle (Buffer.zeros size)) ⟨s.files.length, 0⟩ size := by
  obtain ⟨hnone, -, -⟩ := Disk.createTemp_ok hcreated
  have hafter := content?_created hcreated size
  have hkept : ∀ other, other ∈ s.files.map TempFile.handle ∨ others other →
      (disk.setContent handle (Buffer.zeros size)).content? other = d.content? other := by
    intro other hother
    rw [hafter, if_neg]
    rintro rfl
    rw [← h.present, hnone] at hother
    cases hother
  refine ⟨housed_created h hnone hafter hle path index,
    fun other hother => hkept other (.inr hother), ?_, ?_⟩
  · intro i g hg
    obtain ⟨hlt, -⟩ := List.getElem?_eq_some_iff.1 hg
    refine ⟨g, by simp only [List.getElem?_append_left hlt, hg], fun offset length _ => ?_⟩
    rw [Disk.content_congr (hkept _ (.inl (List.mem_map_of_mem (List.mem_of_getElem? hg))))]
  · refine ⟨⟨handle, path, index, greatest, size⟩, by simp, ?_⟩
    have hself : (disk.setContent handle (Buffer.zeros size)).content handle = Buffer.zeros size :=
      Disk.content_of_content? (by rw [hafter, if_pos rfl])
    simp only [hself]
    exact Buffer.slice_zero fun i _ _ => Buffer.byteAt_zeros _ _

theorem Claims.claimed {others : Nat → Prop} {s s' : SpillFiles} {h h' : Host} {size : Nat}
    {extent : Extent} (hclaims : Claims s h size s' h' extent) (hs : Housed others s.files h.disk) :
    Claimed others s s' h.disk h'.disk extent size := by
  cases hclaims with
  | lengthened hfile hdirectory hreserved hle => exact claimed_lengthened hs hfile hle
  | created hreserved hcreated hle => exact claimed_created hs hcreated hle

namespace Claimed

variable {others : Nat → Prop} {s s' : SpillFiles} {d d' : Disk} {extent : Extent} {size : Nat}

/-- The blocks show what they did before the claim. -/
theorem bytes (h : Claimed others s s' d d' extent size) {b : Block} (hb : b.Placed s.files) :
    b.bytes s'.files d' = b.bytes s.files d := by
  unfold Block.bytes
  cases hbacking : b.backing with
  | memory data initial => rfl
  | file place offset =>
    obtain ⟨f, hf, hle⟩ := hb.2 place offset hbacking
    obtain ⟨g, hg, hsame⟩ := h.kept place f hf
    simp only [hf, hg]
    exact hsame offset b.size hle

/-- With the extent the chain shows zeros behind what it did before. -/
theorem image (h : Claimed others s s' d d' extent size) {c : Chain}
    (hplaced : ∀ b ∈ c.blocks, b.Placed s.files) :
    (c.pushFile extent.file extent.offset size).2.image s'.files d' =
      c.image s.files d ++ List.replicate size 0 := by
  obtain ⟨f, hf, hzero⟩ := h.zeros
  exact Chain.image_pushFile (fun b hb => h.bytes (hplaced b hb)) hf hzero

end Claimed

end SpillFiles

namespace Space

open Relation

/-- The bytes that the chain of the space stands for. -/
def image (s : Space) (d : Disk) : List UInt8 := s.chain.image s.files.files d

theorem Sound.length_image {s : Space} (h : s.Sound) (d : Disk) :
    (s.image d).length = s.physicalSize := h.layout.seated.length_image d

/-- A new space consists of the caller's buffer. -/
theorem image_create {r r' : Registry} {options : SpaceOptions} {s : Space}
    (hcreate : create r options = .ok (s, r')) (d : Disk) :
    s.image d = (options.initial.map Buffer.toList).getD [] := by
  obtain ⟨stem, -, rfl⟩ := create_ok hcreate
  cases options.initial with
  | none => rfl
  | some buffer => exact Chain.image_pushMemory _ _ _ _ _

/-- The bytes of a space are those in its own files and buffers. -/
theorem image_congr (s : Space) {d d' : Disk}
    (hsame : ∀ f ∈ s.files.files, d'.content? f.handle = d.content? f.handle) :
    s.image d' = s.image d := by
  apply Chain.imageOf_congr
  intro b _
  unfold Block.bytes
  cases b.backing with
  | memory data initial => rfl
  | file file offset =>
    simp only
    cases hf : s.files.files[file]? with
    | none => rfl
    | some f =>
      simp only
      rw [Disk.content_congr (hsame f (List.mem_of_getElem? hf))]

/-! ## Access -/

theorem read_spec {s : Space} (hs : s.Sound) {others : Nat → Prop} {h : Host}
    (hh : Housed others s.files.files h.disk) (offset length : Nat) :
    s.read h offset length = if offset + length ≤ s.logicalSize
      then .whole (((s.image h.disk).drop offset).take length)
      else .refused (.outOfBounds offset length s.logicalSize) := by
  unfold read
  by_cases hcovers : s.covers offset length = true
  · have hle := (covers_iff hs).1 hcovers
    rw [if_pos hcovers, if_pos hle,
      Chain.read_spec hs.layout.seated hh.backed (hle.trans hs.covered)]
    rfl
  · have hle := fun hle => hcovers ((covers_iff hs).2 hle)
    rw [if_neg hcovers, if_neg hle]

theorem write_error {s : Space} (hs : s.Sound) (h : Host) {offset : Nat} {bytes : List UInt8}
    (hgt : s.logicalSize < offset + bytes.length) :
    s.write h offset bytes = .fail (s, h) (.outOfBounds offset bytes.length s.logicalSize) := by
  unfold write
  rw [if_neg]
  rw [covers_iff hs]
  omega

/-- A write inside the space replaces the bytes that it names. -/
theorem write_spec {s : Space} (hs : s.Sound) {others : Nat → Prop} {h : Host}
    (hh : Housed others s.files.files h.disk) {offset : Nat} {bytes : List UInt8}
    (hle : offset + bytes.length ≤ s.logicalSize) :
    ∃ chain disk, s.write h offset bytes =
        .ok ({ s with chain := chain }, { h with disk := disk }) () ∧
      chain.size = s.chain.size ∧
      chain.image s.files.files disk = overwritten (s.image h.disk) offset bytes ∧
      Disk.Rewritten s.files.files h.disk disk := by
  obtain ⟨chain, disk, hwrite, himage, hrewritten⟩ := Chain.write_spec hs.layout.seated hh.distinct
    hh.backed (hle.trans hs.covered)
  have houtline := Chain.outline_write hs.layout.buffers s.files.files h.disk offset bytes
  rw [hwrite] at houtline
  refine ⟨chain, disk, ?_, Chain.size_of_outline houtline, himage, hrewritten⟩
  unfold write
  rw [if_pos ((covers_iff hs).2 hle), hwrite]
  rfl

theorem store_spec {s s' : Space} (hs : s.Sound) {d : Disk} {offset size : Nat} {bytes : List UInt8}
    (hstore : s.storeInMemory? offset size bytes = some s') :
    ∃ chain, s' = { s with chain := chain } ∧ chain.size = s.chain.size ∧
      chain.image s.files.files d = overwritten (s.image d) offset (bytes.take size) := by
  obtain ⟨chain, rfl, houtline⟩ := outline_store hs hstore
  unfold storeInMemory? at hstore
  split at hstore
  · obtain ⟨chain', hchain, heq⟩ := Option.map_eq_some_iff.1 hstore
    cases heq
    exact ⟨chain, rfl, Chain.size_of_outline houtline, Chain.store_spec hs.layout.seated d hchain⟩
  · cases hstore

/-! ## Changes -/

/-- Rewriting its own files leaves a space housed, and others alone. -/
theorem housed_of_rewritten {others : Nat → Prop} {files : List TempFile} {d d' : Disk}
    (h : Housed others files d) (hr : Disk.Rewritten files d d') :
    Housed others files d' ∧ ∀ handle, others handle → d'.content? handle = d.content? handle := by
  refine ⟨⟨fun f hf => hr.backed f hf (h.backed f hf), h.distinct, ?_, h.apart⟩,
    fun handle hother => hr.elsewhere handle fun hmem => h.apart handle hmem hother⟩
  intro handle
  rw [hr.present]
  exact h.present handle

/-- A change leaves a space housed, and others alone. -/
theorem Change.housed {others : Nat → Prop} {a b : Space × Host} (hc : Change a b)
    (ha : a.1.Sound) (hh : Housed others a.1.files.files a.2.disk) :
    Housed others b.1.files.files b.2.disk ∧
      ∀ handle, others handle → b.2.disk.content? handle = a.2.disk.content? handle := by
  cases hc with
  | quiet hquiet =>
    cases hquiet with
    | pool => exact ⟨hh, fun _ _ => rfl⟩
    | lengthen => exact ⟨hh, fun _ _ => rfl⟩
    | grow hamount hgrows =>
      cases hgrows with
      | memory => exact ⟨hh, fun _ _ => rfl⟩
      | file hclaims =>
        have hclaimed := hclaims.claimed hh
        exact ⟨hclaimed.housed, hclaimed.elsewhere⟩
  | write s h offset bytes =>
    by_cases hle : offset + bytes.length ≤ s.logicalSize
    · obtain ⟨chain, disk, heq, -, -, hrewritten⟩ := write_spec ha hh hle
      rw [heq]
      exact housed_of_rewritten hh hrewritten
    · rw [write_error ha h (Nat.not_le.1 hle)]
      exact ⟨hh, fun _ _ => rfl⟩
  | store h hstore =>
    obtain ⟨chain, rfl, -⟩ := outline_store ha hstore
    exact ⟨hh, fun _ _ => rfl⟩

theorem changes_housed {others : Nat → Prop} {a b : Space × Host} (hrun : ReflTransGen Change a b)
    (ha : a.1.Sound) (hh : Housed others a.1.files.files a.2.disk) :
    Housed others b.1.files.files b.2.disk ∧
      ∀ handle, others handle → b.2.disk.content? handle = a.2.disk.content? handle := by
  refine (changes_induction (P := fun c => Housed others c.1.files.files c.2.disk ∧
    ∀ handle, others handle → c.2.disk.content? handle = a.2.disk.content? handle)
    ?_ hrun ha ⟨hh, fun _ _ => rfl⟩).2
  intro c d hsound hchange hc
  obtain ⟨hhoused, hsame⟩ := hchange.housed hsound hc.1
  exact ⟨hhoused, fun handle ho => (hsame handle ho).trans (hc.2 handle ho)⟩

/-- A quiet change only appends zeros, as many as the chain gets longer. -/
theorem Quiet.image {others : Nat → Prop} {a b : Space × Host} (hq : Quiet a b) (ha : a.1.Sound)
    (hh : Housed others a.1.files.files a.2.disk) :
    ∃ amount, b.1.physicalSize = a.1.physicalSize + amount ∧
      b.1.image b.2.disk = a.1.image a.2.disk ++ List.replicate amount 0 := by
  cases hq with
  | pool => exact ⟨0, rfl, (List.append_nil _).symm⟩
  | lengthen => exact ⟨0, rfl, (List.append_nil _).symm⟩
  | @grow s s' h h' amount hamount hgrows =>
    refine ⟨amount, hgrows.size, ?_⟩
    cases hgrows with
    | memory =>
      rw [← Buffer.toList_zeros amount]
      exact Chain.image_pushMemory _ _ _ _ _
    | file hclaims => exact (hclaims.claimed hh).image ha.layout.seated.placed

theorem quiet_image {others : Nat → Prop} {a b : Space × Host} (hrun : ReflTransGen Quiet a b)
    (ha : a.1.Sound) (hh : Housed others a.1.files.files a.2.disk) :
    ∃ amount, b.1.physicalSize = a.1.physicalSize + amount ∧
      b.1.image b.2.disk = a.1.image a.2.disk ++ List.replicate amount 0 := by
  induction hrun with
  | refl => exact ⟨0, rfl, (List.append_nil _).symm⟩
  | tail hrun hq ih =>
    obtain ⟨amount, hsize, himage⟩ := ih
    have hrun := changes_of_quiet hrun
    obtain ⟨more, hsize', himage'⟩ := hq.image (changes_sound hrun ha) (changes_housed hrun ha hh).1
    refine ⟨amount + more, by omega, ?_⟩
    calc _ = a.1.image a.2.disk ++ List.replicate amount 0 ++ List.replicate more 0 := by
          rw [himage', himage]
      _ = a.1.image a.2.disk ++ List.replicate (amount + more) 0 := by
          rw [List.append_assoc, List.replicate_append_replicate]

end Space

end SpillStorage
