import Mathlib.Data.List.GetD
import SpillStorage.Proofs.Space.Housed
import SpillStorage.Proofs.Space.Ledger
import SpillStorage.Proofs.Tenants

/-!
The bytes that a space shows, and which of them its operations leave alone.

What is proved, for a space that stands:
  1. `write_ok` and `store_ok`: a write rewrites its own range and nothing else.
  2. `allocate_cases`: a range that is handed out was not in use, and no byte in use changes.
  3. `release_ok_of_used`: a range in use can always be returned, and no byte changes.
  4. `Rewrites.shown` and `Fills.rewrite`: what a range shows after a part of it is rewritten.
  5. `byteAt_of_quiet`: growth shows no other byte.
-/

namespace SpillStorage

open Relation

namespace Space

/-- The space is in order, and its files are on the disk, apart from those of others. -/
structure Stands (a : Space × Host) : Prop where
  sound : a.1.Sound
  housed : ∃ others, Housed others a.1.files.files a.2.disk

/-- What the space shows of `length` bytes from `offset` on. -/
def shown (a : Space × Host) (offset length : Nat) : List UInt8 :=
  ((a.1.image a.2.disk).drop offset).take length

/-- The byte at `i`, also past the end of the chain: there it is the zero that growth will bring. -/
def byteAt (a : Space × Host) (i : Nat) : UInt8 := (a.1.image a.2.disk).getD i 0

def bytesAt (a : Space × Host) (offset length : Nat) : List UInt8 :=
  (List.range length).map fun i => byteAt a (offset + i)

/-- The bytes of a region are the same. -/
def Keeps (region : Finset Nat) (a b : Space × Host) : Prop :=
  ∀ x ∈ region, (b.1.image b.2.disk)[x]? = (a.1.image a.2.disk)[x]?

/-- A range of the space shows other bytes, and nothing else changes. -/
structure Rewrites (a b : Space × Host) (offset : Nat) (bytes : List UInt8) : Prop where
  stands : Stands b
  inside : offset + bytes.length ≤ a.1.logicalSize
  length : b.1.logicalSize = a.1.logicalSize
  used : b.1.used = a.1.used
  image : b.1.image b.2.disk = overwritten (a.1.image a.2.disk) offset bytes

/-- A range is handed out: the bytes in use do not change, and the space gets longer by the range
or not at all. -/
structure Hands (a b : Space × Host) (offset size : Nat) : Prop where
  stands : Stands b
  obtains : Obtains a.1 b.1 (Finset.Ico offset (offset + size))
  kept : Keeps a.1.used a b
  grown : b.1.logicalSize = a.1.logicalSize ∨ b.1.logicalSize = a.1.logicalSize + size
  /-- The range starts at the end of the space, or right behind a byte in use. -/
  start : offset = a.1.logicalSize ∨ ∀ x, x + 1 = offset → x ∈ a.1.used

/-- A range shows bytes from its start on, and nothing outside it changes. -/
structure Fills (a b : Space × Host) (offset size : Nat) (bytes : List UInt8) : Prop where
  stands : Stands b
  length : b.1.logicalSize = a.1.logicalSize
  used : b.1.used = a.1.used
  kept : ∀ region, Disjoint region (Finset.Ico offset (offset + size)) → Keeps region a b
  fits : bytes.length ≤ size
  shows : shown b offset bytes.length = bytes

/-- The bytes in use are what they were, though the space may have got longer by `size`. -/
structure Idles (a b : Space × Host) (size : Nat) : Prop where
  stands : Stands b
  used : b.1.used = a.1.used
  kept : Keeps a.1.used a b
  grown : b.1.logicalSize = a.1.logicalSize ∨ b.1.logicalSize = a.1.logicalSize + size

/-! ## Shown bytes -/

theorem getElem?_shown (a : Space × Host) (offset length i : Nat) : (shown a offset length)[i]? =
    if i < length then (a.1.image a.2.disk)[offset + i]? else none := by
  rw [shown, List.getElem?_take, List.getElem?_drop]

theorem length_shown {a : Space × Host} (ha : Stands a) {offset length : Nat}
    (h : offset + length ≤ a.1.logicalSize) : (shown a offset length).length = length := by
  have himage := ha.sound.length_image a.2.disk
  have hcovered : a.1.logicalSize ≤ a.1.physicalSize := ha.sound.covered
  rw [shown, List.length_take, List.length_drop]
  omega

/-- Inside the space no byte is still to come. -/
theorem shown_eq {a : Space × Host} (ha : Stands a) {offset length : Nat}
    (h : offset + length ≤ a.1.logicalSize) : shown a offset length = bytesAt a offset length := by
  have himage := ha.sound.length_image a.2.disk
  have hcovered : a.1.logicalSize ≤ a.1.physicalSize := ha.sound.covered
  apply List.ext_getElem?
  intro i
  rw [getElem?_shown, bytesAt, List.getElem?_map]
  by_cases hi : i < length
  · have hin : offset + i < (a.1.image a.2.disk).length := by omega
    rw [if_pos hi, List.getElem?_range hi, Option.map_some, List.getElem?_eq_getElem hin, byteAt,
      List.getD_eq_getElem _ _ hin]
  · rw [if_neg hi, List.getElem?_eq_none (by simpa using hi)]
    rfl

theorem shown_append (a : Space × Host) (offset m n : Nat) :
    shown a offset (m + n) = shown a offset m ++ shown a (offset + m) n := by
  rw [shown, List.take_add, List.drop_drop]
  rfl

theorem take_shown (a : Space × Host) (offset : Nat) {m n : Nat} (h : m ≤ n) :
    (shown a offset n).take m = shown a offset m := by
  rw [shown, List.take_take, Nat.min_eq_left h]
  rfl

theorem lt_of_mem_used {s : Space} {x : Nat} (h : x ∈ s.used) : x < s.logicalSize :=
  (mem_used.1 h).1

/-- A range in use lies in the space. -/
theorem le_of_subset_used {s : Space} {offset size : Nat} (hpos : 0 < size)
    (h : Finset.Ico offset (offset + size) ⊆ s.used) : offset + size ≤ s.logicalSize := by
  have hlast : offset + size - 1 ∈ Finset.Ico offset (offset + size) :=
    Finset.mem_Ico.2 ⟨by omega, by omega⟩
  have := lt_of_mem_used (h hlast)
  omega

namespace Keeps

theorem refl (region : Finset Nat) (a : Space × Host) : Keeps region a a := fun _ _ => rfl

theorem trans {region : Finset Nat} {a b c : Space × Host} (hab : Keeps region a b)
    (hbc : Keeps region b c) : Keeps region a c := fun x hx => (hbc x hx).trans (hab x hx)

theorem mono {region part : Finset Nat} {a b : Space × Host} (h : Keeps region a b)
    (hsub : part ⊆ region) : Keeps part a b := fun x hx => h x (hsub hx)

theorem of_image_eq {a b : Space × Host} (h : b.1.image b.2.disk = a.1.image a.2.disk)
    (region : Finset Nat) : Keeps region a b := fun x _ => by rw [h]

/-- A kept range shows what it showed. -/
theorem shown {region : Finset Nat} {a b : Space × Host} (h : Keeps region a b)
    {offset length : Nat} (hsub : Finset.Ico offset (offset + length) ⊆ region) :
    Space.shown b offset length = Space.shown a offset length := by
  apply List.ext_getElem?
  intro i
  rw [getElem?_shown, getElem?_shown]
  split
  · exact h _ (hsub (Finset.mem_Ico.2 ⟨by omega, by omega⟩))
  · rfl

end Keeps

namespace Rewrites

variable {a b : Space × Host} {offset : Nat} {bytes : List UInt8}

theorem offset_le (h : Rewrites a b offset bytes) (ha : Stands a) :
    offset ≤ (a.1.image a.2.disk).length := by
  have himage := ha.sound.length_image a.2.disk
  have hcovered : a.1.logicalSize ≤ a.1.physicalSize := ha.sound.covered
  have := h.inside
  omega

/-- Bytes apart from what is rewritten stay. -/
theorem keeps (h : Rewrites a b offset bytes) (ha : Stands a) {region : Finset Nat}
    (hapart : Disjoint region (Finset.Ico offset (offset + bytes.length))) : Keeps region a b := by
  intro x hx
  have hout := Finset.disjoint_left.1 hapart hx
  rw [Finset.mem_Ico] at hout
  rw [h.image, getElem?_overwritten (h.offset_le ha), if_neg hout]

/-- A range that showed `old` shows `old` written over, where a part of it was written, or a part
that starts inside it or at its end. -/
theorem shown {start place : Nat} {old : List UInt8} (h : Rewrites a b (start + place) bytes)
    (ha : Stands a) (hold : Space.shown a start old.length = old) (hplace : place ≤ old.length) :
    Space.shown b start (overwritten old place bytes).length = overwritten old place bytes := by
  have hbyte : ∀ i < old.length, (a.1.image a.2.disk)[start + i]? = old[i]? := by
    intro i hi
    have hshown := getElem?_shown a start old.length i
    rw [if_pos hi, hold] at hshown
    exact hshown.symm
  apply List.ext_getElem?
  intro i
  rw [getElem?_shown, getElem?_overwritten hplace, h.image,
    getElem?_overwritten (h.offset_le ha), length_overwritten hplace]
  by_cases hin : place ≤ i ∧ i < place + bytes.length
  · rw [if_pos (by omega), if_pos (by omega), if_pos hin]
    congr 1
    omega
  · rw [if_neg hin]
    by_cases hi : i < old.length
    · rw [if_pos (by omega), if_neg (by omega), hbyte i hi]
    · rw [if_neg (by omega), List.getElem?_eq_none (by omega)]

end Rewrites

namespace Fills

variable {a b c : Space × Host} {offset size place : Nat} {old bytes : List UInt8}

theorem refl (ha : Stands a) (hfits : old.length ≤ size)
    (hshows : Space.shown a offset old.length = old) : Fills a a offset size old :=
  ⟨ha, rfl, rfl, fun region _ => .refl region a, hfits, hshows⟩

theorem rewrite (h : Fills a b offset size old) (hr : Rewrites b c (offset + place) bytes)
    (hplace : place ≤ old.length) (hfits : place + bytes.length ≤ size) :
    Fills a c offset size (overwritten old place bytes) := by
  refine ⟨hr.stands, hr.length.trans h.length, hr.used.trans h.used, ?_, ?_,
    hr.shown h.stands h.shows hplace⟩
  · intro region hapart
    have hsub : Finset.Ico (offset + place) (offset + place + bytes.length) ⊆
        Finset.Ico offset (offset + size) := Finset.Ico_subset_Ico (by omega) (by omega)
    exact (h.kept region hapart).trans (hr.keeps h.stands (hapart.mono_right hsub))
  · have := h.fits
    rw [length_overwritten hplace]
    omega

theorem append (h : Fills a b offset size old) (hr : Rewrites b c (offset + old.length) bytes)
    (hfits : old.length + bytes.length ≤ size) : Fills a c offset size (old ++ bytes) := by
  have hfills := h.rewrite hr (Nat.le_refl _) hfits
  rwa [overwritten_end] at hfills

theorem of_rewrites (ha : Stands a) (hr : Rewrites a b offset bytes) (hfits : bytes.length ≤ size) :
    Fills a b offset size bytes := by
  have hnil : Fills a a offset size [] := .refl ha (Nat.zero_le _) rfl
  exact hnil.append hr (by simpa using hfits)

end Fills

/-- A range that is handed out, and then filled, is handed out. -/
theorem Hands.fills {a b c : Space × Host} {offset size : Nat} {bytes : List UInt8}
    (h : Hands a b offset size) (hf : Fills b c offset size bytes) : Hands a c offset size := by
  refine ⟨hf.stands, ⟨?_, h.obtains.unused, ?_⟩, h.kept.trans (hf.kept _ h.obtains.unused), ?_,
    h.start⟩
  · rw [hf.length]
    exact h.obtains.grows
  · rw [hf.used]
    exact h.obtains.used
  · rw [hf.length]
    exact h.grown

/-! ## The operations -/

/-- A space goes on standing through whatever it does. -/
theorem Stands.leads {a b : Space × Host} (ha : Stands a) (h : Leads a b) : Stands b := by
  obtain ⟨others, hhoused⟩ := ha.housed
  exact ⟨h.sound ha.sound, others, (changes_housed (h ha.sound) ha.sound hhoused).1⟩

theorem read_complete {s : Space} {h : Host} (ha : Stands (s, h)) {offset length : Nat}
    (hle : offset + length ≤ s.logicalSize) :
    (s.read h offset length).complete = .ok (shown (s, h) offset length) := by
  obtain ⟨others, hhoused⟩ := ha.housed
  rw [read_spec ha.sound hhoused, if_pos hle]
  rfl

theorem read_refused {s : Space} {h : Host} (ha : Stands (s, h)) {offset length : Nat}
    (hgt : s.logicalSize < offset + length) : (s.read h offset length).complete =
      .error (.outOfBounds offset length s.logicalSize) := by
  obtain ⟨others, hhoused⟩ := ha.housed
  rw [read_spec ha.sound hhoused, if_neg (Nat.not_le.2 hgt)]
  rfl

theorem write_ok {s : Space} {h : Host} (ha : Stands (s, h)) (offset : Nat) (bytes : List UInt8)
    (hle : offset + bytes.length ≤ s.logicalSize) :
    ∃ b, s.write h offset bytes = .ok b () ∧ Rewrites (s, h) b offset bytes := by
  obtain ⟨others, hhoused⟩ := ha.housed
  obtain ⟨chain, disk, hwrite, hsize, himage, -⟩ := write_spec ha.sound hhoused hle
  have hstands := ha.leads (leads_write s h offset bytes)
  rw [hwrite] at hstands
  exact ⟨_, hwrite, hstands, hle, rfl, rfl, himage⟩

theorem store_ok {s s' : Space} {h : Host} (ha : Stands (s, h)) {offset size : Nat}
    {bytes : List UInt8} (hstore : s.storeInMemory? offset size bytes = some s') :
    Rewrites (s, h) (s', h) offset (bytes.take size) := by
  have hstands := ha.leads (leads_store h hstore)
  obtain ⟨chain, rfl, -, himage⟩ := store_spec ha.sound hstore (d := h.disk)
  refine ⟨hstands, ?_, rfl, rfl, himage⟩
  unfold storeInMemory? at hstore
  by_cases hcovers : s.covers offset size = true
  · have hle : offset + size ≤ s.logicalSize := (covers_iff ha.sound).1 hcovers
    have hlength : (bytes.take size).length ≤ size := List.length_take_le _ _
    exact (Nat.add_le_add_left hlength offset).trans hle
  · rw [if_neg hcovers] at hstore
    cases hstore

/-- A quiet run changes no byte of the space that it starts from. -/
theorem keeps_of_quiet {a b : Space × Host} (ha : Stands a) (hrun : ReflTransGen Quiet a b) :
    Keeps a.1.used a b := by
  obtain ⟨others, hhoused⟩ := ha.housed
  obtain ⟨amount, -, himage⟩ := quiet_image hrun ha.sound hhoused
  intro x hx
  have hlength := ha.sound.length_image a.2.disk
  have hcovered : a.1.logicalSize ≤ a.1.physicalSize := ha.sound.covered
  have := lt_of_mem_used hx
  rw [himage, List.getElem?_append_left (by omega)]

/-- A quiet run shows no other byte: where the chain gets longer, there were to be zeros. -/
theorem byteAt_of_quiet {a b : Space × Host} (ha : Stands a) (hrun : ReflTransGen Quiet a b)
    (i : Nat) : byteAt b i = byteAt a i := by
  obtain ⟨others, hhoused⟩ := ha.housed
  obtain ⟨amount, -, himage⟩ := quiet_image hrun ha.sound hhoused
  unfold byteAt
  rw [himage]
  by_cases hi : i < (a.1.image a.2.disk).length
  · exact List.getD_append _ _ _ _ hi
  · have hi := not_lt.1 hi
    rw [List.getD_append_right _ _ _ _ hi, List.getD_eq_default _ _ hi,
      List.getD_eq_getElem?_getD, List.getElem?_replicate]
    split <;> rfl

theorem allocate_start {s : Space} (hs : s.Sound) {h : Host} {b : Space × Host}
    {size offset : Nat} (hsize : 0 < size) (ha : s.allocate h size = .ok b offset) :
    (b.1.logicalSize = s.logicalSize ∨ b.1.logicalSize = s.logicalSize + size) ∧
      (offset = s.logicalSize ∨ ∀ x, x + 1 = offset → x ∈ s.used) := by
  obtain ⟨s', h'⟩ := b
  rcases allocate_source hsize ha with ⟨free, hfree, rfl, -⟩ | ⟨-, hextend, hstart⟩
  · refine ⟨.inl rfl, .inr ?_⟩
    rintro x rfl
    -- a free segment starts there
    obtain ⟨-, slot, t, ht, hposition, hle, -⟩ := Pool.allocate_eq_cut hs.pool hfree
    have hmem := (Pool.mem_segments hs.pool.toIndexed).2 ⟨slot, ht⟩
    have hbefore := Pool.before_not_mem_bytes hs.pool hmem (by omega)
    rw [hposition, Nat.add_sub_cancel] at hbefore
    have hfinish := finish_le_of_below hs.pool hs.below t hmem
    refine mem_used.2 ⟨?_, hbefore⟩
    unfold Segment.finish at hfinish
    omega
  · exact ⟨.inr (extend_ok hextend).2, .inl hstart⟩

theorem allocate_cases {s : Space} {h : Host} (ha : Stands (s, h)) {size : Nat} (hsize : 0 < size) :
    (∃ f, s.allocate h size = .fail (s, h) f) ∨
      ∃ b offset, s.allocate h size = .ok b offset ∧ Hands (s, h) b offset size := by
  have hstands := ha.leads (leads_allocate s h size)
  have hkeeps := keeps_of_quiet ha (allocate_quiet ha.sound h size)
  cases hallocate : s.allocate h size with
  | mk b answer =>
  cases answer with
  | error f =>
    have hstate := allocate_error (f := f) (by rw [hallocate])
    rw [hallocate] at hstate
    exact .inl ⟨f, congrArg (Outcome.fail · f) hstate⟩
  | ok offset =>
    have hobtains := allocate_obtains ha.sound
      (show (s.allocate h size).answer = .ok offset by rw [hallocate])
    obtain ⟨hgrown, hstart⟩ := allocate_start ha.sound hsize hallocate
    rw [hallocate] at hstands hkeeps hobtains
    exact .inr ⟨b, offset, rfl, hstands, hobtains, hkeeps, hgrown, hstart⟩

/-- A range in use can be returned. -/
theorem release_ok_of_used {s : Space} {h : Host} (ha : Stands (s, h)) {offset size : Nat}
    (hsize : 0 < size) (hsub : Finset.Ico offset (offset + size) ⊆ s.used) :
    ∃ s', s.release offset size = .ok s' ∧ Stands (s', h) ∧ s'.logicalSize = s.logicalSize ∧
      s'.used = s.used \ Finset.Ico offset (offset + size) ∧ s'.image h.disk = s.image h.disk := by
  have hfree : Disjoint (Finset.Ico offset (offset + size)) s.free.bytes := by
    apply Finset.disjoint_left.2
    intro x hx
    exact (mem_used.1 (hsub hx)).2
  obtain ⟨s', hr⟩ := (release_iff ha.sound).2 ⟨hsize, le_of_subset_used hsize hsub, hfree⟩
  obtain ⟨hlength, hused⟩ := used_release ha.sound hr
  have hstands := ha.leads (leads_release h hr)
  obtain ⟨free, rfl, -⟩ := release_ok ha.sound hr
  exact ⟨_, hr, hstands, hlength, hused, rfl⟩

end Space

end SpillStorage
