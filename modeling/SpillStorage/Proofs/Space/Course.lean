import SpillStorage.Proofs.Chain.Initial
import SpillStorage.Proofs.Space.Face

/-!
What becomes of a space, move by move, and what is stored in it on the way.

What is proved:
  1. `Course.stands` and `Course.initialBytes_eq`: on every course a space goes on standing, with
     the caller's buffer as long as it was.
  2. `Course.byteAt_eq`: a byte is what was stored last at its offset, and what it was if nothing
     was stored there.
  3. `Course.takeInitial_eq`: so it is with the bytes of the caller's buffer, which is the first
     block all the while.
  4. `course_serve`: whatever a space is asked is a course, which stores what `stores` tells from
     the request and its answer.

A run of changes does not tell by how much a space was lengthened at a time, and what was written.
A course does: its moves are whole requests for more room, and writes that were met.
-/

namespace SpillStorage

open Relation

/-- Bytes stored from an offset on. -/
structure Store where
  offset : Nat
  bytes : List UInt8
  deriving DecidableEq

/-- The byte that a store puts at `i`, if it reaches there. -/
def Store.byteAt? (w : Store) (i : Nat) : Option UInt8 :=
  if w.offset ≤ i then w.bytes[i - w.offset]? else none

/-- The byte that was stored last at `i`, if any was. -/
def lastAt (stores : List Store) (i : Nat) : Option UInt8 :=
  (stores.filterMap (·.byteAt? i)).getLast?

theorem lastAt_append (xs ys : List Store) (i : Nat) :
    lastAt (xs ++ ys) i = (lastAt ys i).or (lastAt xs i) := by
  rw [lastAt, List.filterMap_append, List.getLast?_append]
  rfl

theorem lastAt_single (w : Store) (i : Nat) : lastAt [w] i = w.byteAt? i := by
  rw [lastAt, List.filterMap_cons]
  cases w.byteAt? i <;> rfl

namespace Space

variable {a b c : Space × Host} {s s' : Space} {h h' : Host} {ws more : List Store} {size : Nat}

/-! ## Moves -/

/-- One thing that happens to a space, and what is stored by it. -/
inductive Moves : Space × Host → List Store → Space × Host → Prop
  /-- Other bytes are free. -/
  | pool {s : Space} {h : Host} {free : Pool} (hfree : free.Sound)
      (hbelow : ∀ x ∈ free.bytes, x < s.logicalSize) : Moves (s, h) [] ({ s with free := free }, h)
  /-- The space is to be lengthened, and is or is not. -/
  | extend (s : Space) (h : Host) (size : Nat) : Moves (s, h) [] (s.extend h size).state
  | write {s : Space} {h : Host} {offset : Nat} {bytes : List UInt8} {b : Space × Host}
      (hwrite : s.write h offset bytes = .ok b ()) : Moves (s, h) [⟨offset, bytes⟩] b
  | store {s s' : Space} {offset size : Nat} {bytes : List UInt8} (h : Host)
      (hstore : s.storeInMemory? offset size bytes = some s') :
      Moves (s, h) [⟨offset, bytes.take size⟩] (s', h)
  /-- Others change the host, but not what the files of the space hold. -/
  | wait {s : Space} {h h' : Host} (hstands : Stands (s, h'))
      (hsame : ∀ f ∈ s.files.files, h'.disk.content? f.handle = h.disk.content? f.handle)
      (hsettings : h'.registry.settings = h.registry.settings) : Moves (s, h) [] (s, h')

/-- Moves one after the other. -/
inductive Course (a : Space × Host) : List Store → Space × Host → Prop
  | start : Course a [] a
  | move {ws more : List Store} {b c : Space × Host} (hcourse : Course a ws b)
      (hmoves : Moves b more c) : Course a (ws ++ more) c

namespace Moves

theorem stands (hm : Moves a ws b) (ha : Stands a) : Stands b := by
  cases hm with
  | pool hfree hbelow => exact ha.leads fun _ => .single (.quiet (.pool hfree hbelow))
  | extend s h size => exact ha.leads (leads_extend s h size)
  | @write s h offset bytes b hwrite =>
    have hleads := leads_write s h offset bytes
    rw [hwrite] at hleads
    exact ha.leads hleads
  | store h hstore => exact ha.leads (leads_store h hstore)
  | wait hstands hsame hsettings => exact hstands

theorem settings (hm : Moves a ws b) (ha : Stands a) :
    b.2.registry.settings = a.2.registry.settings := by
  cases hm with
  | pool hfree hbelow => rfl
  | extend s h size => exact (quiet_settings (extend_quiet h size)).2
  | @write s h offset bytes b hwrite =>
    obtain ⟨chain, disk, hstate, -⟩ := outline_write ha.sound h offset bytes
    rw [hwrite] at hstate
    cases hstate
    rfl
  | store h hstore => rfl
  | wait hstands hsame hsettings => exact hsettings

/-- A move changes the outline of a chain only by appending to it. -/
theorem initialBytes_eq (hm : Moves a ws b) (ha : Stands a) :
    b.1.chain.initialBytes = a.1.chain.initialBytes := by
  cases hm with
  | pool hfree hbelow => rfl
  | extend s h size =>
    rcases s.extend_cases h size with
      ⟨f, heq⟩ | ⟨-, heq⟩ | ⟨-, -, -, heq⟩ | ⟨amount, s', h', -, hgrows, heq⟩
    all_goals rw [heq]
    · rfl
    · rfl
    · rfl
    · cases hgrows with
      | memory => exact s.chain.initialBytes_pushMemory _ false
      | file => exact s.chain.initialBytes_pushFile _ _ _
  | @write s h offset bytes b hwrite =>
    obtain ⟨chain, disk, hstate, houtline⟩ := outline_write ha.sound h offset bytes
    rw [hwrite] at hstate
    cases hstate
    exact Chain.initialBytes_congr houtline
  | store h hstore =>
    obtain ⟨chain, rfl, houtline⟩ := outline_store ha.sound hstore
    exact Chain.initialBytes_congr houtline
  | wait hstands hsame hsettings => rfl

end Moves

theorem Rewrites.byteAt_eq {offset : Nat} {bytes : List UInt8} (hr : Rewrites a b offset bytes)
    (ha : Stands a) (i : Nat) :
    byteAt b i = ((Store.mk offset bytes).byteAt? i).getD (byteAt a i) := by
  unfold byteAt Store.byteAt?
  simp only [hr.image, List.getD_eq_getElem?_getD, getElem?_overwritten (hr.offset_le ha)]
  by_cases hle : offset ≤ i
  · rw [if_pos hle]
    by_cases hlt : i < offset + bytes.length
    · have hin : i - offset < bytes.length := by omega
      rw [if_pos ⟨hle, hlt⟩, List.getElem?_eq_getElem hin]
      rfl
    · have hout : bytes.length ≤ i - offset := by omega
      rw [if_neg fun hboth => hlt hboth.2, List.getElem?_eq_none hout]
      rfl
  · rw [if_neg fun hboth => hle hboth.1, if_neg hle]
    rfl

theorem Moves.byteAt_eq (hm : Moves a ws b) (ha : Stands a) (i : Nat) :
    byteAt b i = (lastAt ws i).getD (byteAt a i) := by
  cases hm with
  | pool hfree hbelow => rfl
  | extend s h size => exact byteAt_of_quiet ha (extend_quiet h size) i
  | @write s h offset bytes b hwrite =>
    rw [lastAt_single]
    by_cases hle : offset + bytes.length ≤ s.logicalSize
    · obtain ⟨b', hwrite', hr⟩ := write_ok ha offset bytes hle
      rw [hwrite] at hwrite'
      cases hwrite'
      exact hr.byteAt_eq ha i
    · rw [write_error ha.sound h (not_le.1 hle)] at hwrite
      cases hwrite
  | store h hstore =>
    rw [lastAt_single]
    exact (store_ok ha hstore).byteAt_eq ha i
  | @wait s h h' hstands hsame hsettings =>
    show (s.image h'.disk).getD i 0 = (s.image h.disk).getD i 0
    rw [s.image_congr hsame]

/-! ## Courses -/

namespace Course

theorem single (hm : Moves a ws b) : Course a ws b := .move .start hm

theorem trans (hab : Course a ws b) (hbc : Course b more c) : Course a (ws ++ more) c := by
  induction hbc with
  | start =>
    rw [List.append_nil]
    exact hab
  | move _ hmoves ih =>
    rw [← List.append_assoc]
    exact .move ih hmoves

/-- What every move from a space that stands keeps, every course keeps. -/
theorem induction {P : Space × Host → Prop}
    (hstep : ∀ b more c, Stands b → Moves b more c → P b → P c) (hc : Course a ws b)
    (ha : Stands a) (hp : P a) : Stands b ∧ P b := by
  induction hc with
  | start => exact ⟨ha, hp⟩
  | move _ hmoves ih => exact ⟨hmoves.stands ih.1, hstep _ _ _ ih.1 hmoves ih.2⟩

theorem stands (hc : Course a ws b) (ha : Stands a) : Stands b :=
  (hc.induction (P := fun _ => True) (fun _ _ _ _ _ _ => trivial) ha trivial).1

theorem initialBytes_eq (hc : Course a ws b) (ha : Stands a) :
    b.1.chain.initialBytes = a.1.chain.initialBytes :=
  (hc.induction (P := fun x => x.1.chain.initialBytes = a.1.chain.initialBytes)
    (fun _ _ _ hb hmoves heq => (hmoves.initialBytes_eq hb).trans heq) ha rfl).2

/-- A byte is what was stored last at its offset, and what it was if nothing was stored there. -/
theorem byteAt_eq (hc : Course a ws b) (ha : Stands a) (i : Nat) :
    byteAt b i = (lastAt ws i).getD (byteAt a i) := by
  induction hc with
  | start => rfl
  | move hcourse hmoves ih =>
    rw [hmoves.byteAt_eq (hcourse.stands ha), ih, lastAt_append, Option.getD_or]

/-- Where nothing is stored, every byte stays. -/
theorem bytesAt_eq (hc : Course a [] b) (ha : Stands a) (offset length : Nat) :
    bytesAt b offset length = bytesAt a offset length :=
  List.map_congr_left fun i _ => hc.byteAt_eq ha (offset + i)

end Course

/-! ## New spaces -/

theorem initialBytes_create {r r' : Registry} {options : SpaceOptions}
    (hcreate : create r options = .ok (s, r')) :
    s.chain.initialBytes = (options.initial.map Buffer.size).getD 0 := by
  obtain ⟨stem, -, rfl⟩ := create_ok hcreate
  cases options.initial with
  | none => rfl
  | some buffer => exact (Chain.initialBytes_pushMemory _ _ true).trans (Nat.zero_add _)

theorem byteAt_create {r r' : Registry} {options : SpaceOptions} {buffer : Buffer}
    (hcreate : create r options = .ok (s, r')) (hinitial : options.initial = some buffer) (h : Host)
    {i : Nat} (hi : i < buffer.size) : byteAt (s, h) i = buffer.byteAt i := by
  rw [byteAt, image_create hcreate, hinitial]
  exact buffer.getD_toList hi

/-- What is taken out of a space at the end of a course is the block that it started with, with what
was stored there on the way. -/
theorem Course.takeInitial_eq (hc : Course a ws b) (ha : Stands a)
    (hpos : 0 < a.1.chain.initialBytes) :
    ∃ data, b.1.chain.takeInitial.1 = some data ∧ data.size = a.1.chain.initialBytes ∧
      (∃ rest, b.1.chain.blocks = ⟨0, data.size, .memory data true⟩ :: rest) ∧
      ∀ i < data.size, data.byteAt i = (lastAt ws i).getD (byteAt a i) := by
  have hkept := hc.initialBytes_eq ha
  obtain ⟨data, rest, hblocks, hsize⟩ :=
    (hc.stands ha).sound.layout.initial_first (by rw [hkept]; exact hpos)
  rw [← hsize] at hblocks
  refine ⟨data, Chain.takeInitial_eq hblocks, hsize.trans hkept, ⟨rest, hblocks⟩, ?_⟩
  intro i hi
  rw [← hc.byteAt_eq ha]
  exact (Chain.image_getD_first hblocks _ _ hi).symm

/-! ## What a space is asked -/

/-- What an answer tells to be stored; what is refused stores nothing. -/
def told {α : Type} (w : α → List Store) : Except Failure α → List Store
  | .ok a => w a
  | .error _ => []

/-- What a request stores, told from its answer. -/
def stores (s : Space) (h : Host) : Request → List Store
  | .write offset bytes => told (fun _ => [⟨offset, bytes⟩]) (s.write h offset bytes).answer
  | .store offset size bytes =>
    if (s.storeInMemory? offset size bytes).isSome then [⟨offset, bytes.take size⟩] else []
  | _ => []

/-- A write is met as a whole, or refused. -/
theorem write_cases (ha : Stands (s, h)) (offset : Nat) (bytes : List UInt8) :
    (∃ f, s.write h offset bytes = .fail (s, h) f) ∨
      ∃ b, s.write h offset bytes = .ok b () ∧ Course (s, h) [⟨offset, bytes⟩] b := by
  by_cases hle : offset + bytes.length ≤ s.logicalSize
  · obtain ⟨b, hwrite, -⟩ := write_ok ha offset bytes hle
    exact .inr ⟨b, hwrite, .single (.write hwrite)⟩
  · exact .inl ⟨_, write_error ha.sound h (not_le.1 hle)⟩

theorem course_allocate (hs : s.Sound) (h : Host) (size : Nat) :
    Course (s, h) [] (s.allocate h size).state := by
  rcases allocate_state hs h size with heq | ⟨free, hfree, hbelow, heq⟩ | heq
  all_goals rw [heq]
  · exact .start
  · exact .single (.pool hfree hbelow)
  · exact .single (.extend s h size)

theorem course_release (hs : s.Sound) (h : Host) {offset : Nat}
    (hr : s.release offset size = .ok s') : Course (s, h) [] (s', h) := by
  obtain ⟨free, rfl, hfree, hbelow⟩ := release_pool hs hr
  exact .single (.pool hfree hbelow)

theorem course_allocateBatch (hs : s.Sound) (h : Host) (count least greatest : Nat) :
    Course (s, h) [] (s.allocateBatch h count least greatest).state := by
  rcases allocateBatch_cases hs h count least greatest with
    ⟨free, f, hfree, hbytes, heq⟩ | ⟨free, regions, hc, heq⟩ |
    ⟨free, regions, size, missing, s', h', hc, -, hextend, heq⟩
  all_goals rw [heq]
  · exact .single (.pool hfree fun x hx => hs.below x (by rw [← hbytes]; exact hx))
  · exact .single (.pool hc.sound fun x hx => hs.below x (hc.subset hx))
  · have hmoves := Moves.extend { s with free := free } h (size * missing)
    rw [hextend] at hmoves
    exact (Course.single (.pool hc.sound fun x hx => hs.below x (hc.subset hx))).trans
      (.single hmoves)

/-- Whatever a space is asked is a course, which stores what the answer tells. -/
theorem course_serve (ha : Stands (s, h)) (request : Request) :
    Course (s, h) (s.stores h request) (s.serve h request) := by
  cases request with
  | extend size => exact .single (.extend s h size)
  | write offset bytes =>
    simp only [stores, serve]
    rcases write_cases ha offset bytes with ⟨f, heq⟩ | ⟨b, heq, hcourse⟩
    · rw [heq]
      exact .start
    · rw [heq]
      exact hcourse
  | store offset size bytes =>
    simp only [stores, serve]
    cases hstore : s.storeInMemory? offset size bytes with
    | none => exact .start
    | some s' => exact .single (.store h hstore)
  | allocate size => exact course_allocate ha.sound h size
  | release offset size =>
    simp only [stores, serve]
    cases hr : s.release offset size with
    | error f => exact .start
    | ok s' => exact course_release ha.sound h hr
  | batch count least greatest => exact course_allocateBatch ha.sound h count least greatest

end Space

end SpillStorage
