import SpillStorage.Proofs.Space.Bytes

/-!
What callers see of a space, without the blocks, files and accounts below it.

What is proved:
  1. `Presents.call`: a space that has room answers every call as its face does, and presents the
     face that the call leaves.
  2. `presents_create`: a new space presents the face of the caller's buffer.

A face has a size, a pool and a byte at every offset, also past the end: there it is the byte that
the space will show when it gets that far. So the slack of the last block is part of the face, but
its length is not, and growth changes nothing of a face but the size.
-/

namespace SpillStorage

open Relation

namespace Space

/-! ## Calls -/

/-- What callers ask of a space. -/
inductive Call where
  | extend (size : Nat)
  | read (offset length : Nat)
  | write (offset : Nat) (bytes : List UInt8)
  | allocate (size : Nat)
  | release (offset size : Nat)
  deriving DecidableEq

/-- What callers get back. -/
inductive Answer where
  | done
  | bytes (read : List UInt8)
  | place (offset : Nat)
  deriving DecidableEq

/-- A space asked through a call. -/
def call (s : Space) (h : Host) : Call → Outcome (Space × Host) Answer
  | .extend size => (s.extend h size).map fun _ => .done
  | .read offset length =>
    match (s.read h offset length).complete with
    | .ok bytes => .ok (s, h) (.bytes bytes)
    | .error f => .fail (s, h) f
  | .write offset bytes => (s.write h offset bytes).map fun _ => .done
  | .allocate size => (s.allocate h size).map .place
  | .release offset size =>
    match s.release offset size with
    | .ok s => .ok (s, h) .done
    | .error f => .fail (s, h) f

theorem leads_call (s : Space) (h : Host) (c : Call) : Leads (s, h) (s.call h c).state := by
  cases c with
  | extend size => exact Leads.andThen id (leads_extend s h size) fun _ => .refl _
  | read offset length =>
    simp only [call]
    split <;> exact .refl _
  | write offset bytes => exact Leads.andThen id (leads_write s h offset bytes) fun _ => .refl _
  | allocate size => exact Leads.andThen id (leads_allocate s h size) fun _ => .refl _
  | release offset size =>
    simp only [call]
    split
    · next s' hr => exact leads_release h hr
    · exact .refl _

/-- The answer is that no directory can host the bytes. -/
def denied {α : Type} : Except Failure α → Bool
  | .error (.outOfTempSpace _ _) => true
  | _ => false

theorem denied_error {α β : Type} (f : Failure) :
    denied (.error f : Except Failure α) = denied (.error f : Except Failure β) := by
  cases f <;> rfl

/-- There was room for what was asked, and the chain is no longer than a request can name. -/
structure Roomy {α : Type} (o : Outcome (Space × Host) α) : Prop where
  granted : denied o.answer = false
  short : o.state.1.physicalSize < Disk.lengthBound

instance {α : Type} (o : Outcome (Space × Host) α) : Decidable (Roomy o) :=
  decidable_of_iff (denied o.answer = false ∧ o.state.1.physicalSize < Disk.lengthBound)
    ⟨fun h => ⟨h.1, h.2⟩, fun h => ⟨h.granted, h.short⟩⟩

/-! ## What no change touches -/

theorem Grows.settings {s s' : Space} {h h' : Host} {amount : Nat} (hg : Grows s h amount s' h') :
    s'.growable = s.growable ∧ h'.registry.settings = h.registry.settings := by
  cases hg with
  | memory hreserved =>
    obtain ⟨rfl, -⟩ := Registry.reserveCache?_some hreserved
    exact ⟨rfl, rfl⟩
  | file hclaims =>
    cases hclaims with
    | lengthened hfile hdirectory hreserved hle =>
      obtain ⟨directory, -, rfl, -⟩ := Registry.reserveDirectory?_some hreserved
      exact ⟨rfl, rfl⟩
    | created hreserved hcreated hle =>
      obtain ⟨directory, -, rfl, -⟩ := Registry.reserveDirectory?_some hreserved
      exact ⟨rfl, rfl⟩

theorem quiet_settings {a b : Space × Host} (hrun : ReflTransGen Quiet a b) :
    b.1.growable = a.1.growable ∧ b.2.registry.settings = a.2.registry.settings := by
  induction hrun with
  | refl => exact ⟨rfl, rfl⟩
  | tail _ hq ih =>
    cases hq with
    | pool => exact ih
    | lengthen => exact ih
    | grow hamount hgrows =>
      exact ⟨hgrows.settings.1.trans ih.1, hgrows.settings.2.trans ih.2⟩

end Space

/-! ## Faces -/

/-- A space as its callers see it. -/
structure Face where
  size : Nat
  free : Pool
  byte : Nat → UInt8

namespace Face

open Space (Call Answer)

/-- The face of a new space over a caller's buffer. -/
def ofBytes (bytes : List UInt8) : Face := ⟨0, .empty, fun x => bytes.getD x 0⟩

def bytes (v : Face) (offset length : Nat) : List UInt8 :=
  (List.range length).map fun i => v.byte (offset + i)

/-- The face with other bytes from `offset` on. -/
def overwrite (v : Face) (offset : Nat) (bytes : List UInt8) : Face :=
  { v with byte := fun x =>
      if offset ≤ x ∧ x < offset + bytes.length then bytes.getD (x - offset) 0 else v.byte x }

/-- A longer face, if its size is the length of something. -/
def extend (v : Face) (size : Nat) : Outcome Face Unit :=
  if size = 0 then .ok v ()
  else if Disk.lengthBound ≤ v.size + size then .fail v (.invalidRange v.size size)
  else .ok { v with size := v.size + size } ()

def read (v : Face) (offset length : Nat) : Except Failure (List UInt8) :=
  if offset + length ≤ v.size then .ok (v.bytes offset length)
  else .error (.outOfBounds offset length v.size)

def write (v : Face) (offset : Nat) (bytes : List UInt8) : Outcome Face Unit :=
  if offset + bytes.length ≤ v.size then .ok (v.overwrite offset bytes) ()
  else .fail v (.outOfBounds offset bytes.length v.size)

def allocate (v : Face) (size : Nat) : Outcome Face Nat :=
  if size = 0 then .ok v v.size
  else
    match v.free.allocate size with
    | some (offset, free) => .ok { v with free := free } offset
    | none => (v.extend size).andThen fun v _ => .ok v (v.size - size)

def release (v : Face) (offset size : Nat) : Except Failure Face :=
  if size = 0 then .error (.invalidRange offset size)
  else if offset + size ≤ v.size then
    match v.free.release offset size with
    | .ok free => .ok { v with free := free }
    | .error f => .error f
  else .error (.outOfBounds offset size v.size)

def call (v : Face) : Call → Outcome Face Answer
  | .extend size => (v.extend size).map fun _ => .done
  | .read offset length =>
    match v.read offset length with
    | .ok bytes => .ok v (.bytes bytes)
    | .error f => .fail v f
  | .write offset bytes => (v.write offset bytes).map fun _ => .done
  | .allocate size => (v.allocate size).map .place
  | .release offset size =>
    match v.release offset size with
    | .ok v => .ok v .done
    | .error f => .fail v f

end Face

/-! ## Spaces and their faces -/

namespace Space

/-- The space shows the face, and may grow in blocks of a size that is an offset. -/
structure Presents (a : Space × Host) (v : Face) : Prop where
  stands : Stands a
  growable : a.1.growable = true
  granularity : a.2.registry.settings.granularity < Offset.bound
  size : a.1.logicalSize = v.size
  free : a.1.free = v.free
  byte : ∀ x, (a.1.image a.2.disk).getD x 0 = v.byte x

/-- The same call, answered by a space and by a face. -/
structure Matches {α : Type} (o : Outcome (Space × Host) α) (p : Outcome Face α) : Prop where
  answer : o.answer = p.answer
  presents : Presents o.state p.state

/-- Steps that match one after the other match together. -/
theorem Matches.andThen {α β : Type} {o : Outcome (Space × Host) α} {p : Outcome Face α}
    (h : Matches o p) {next : Space × Host → α → Outcome (Space × Host) β}
    {next' : Face → α → Outcome Face β}
    (hnext : ∀ a v x, Presents a v → Matches (next a x) (next' v x)) :
    Matches (o.andThen next) (p.andThen next') := by
  obtain ⟨hanswer, hpresents⟩ := h
  obtain ⟨state, answer⟩ := o
  obtain ⟨state', answer'⟩ := p
  cases hanswer
  cases answer with
  | ok x => exact hnext state state' x hpresents
  | error f => exact ⟨rfl, hpresents⟩

theorem Matches.map {α β : Type} {o : Outcome (Space × Host) α} {p : Outcome Face α}
    (h : Matches o p) (f : α → β) : Matches (o.map f) (p.map f) :=
  h.andThen fun _ _ _ hpresents => ⟨rfl, hpresents⟩

/-- A step that always succeeds takes no room. -/
theorem Roomy.first {α β : Type} {o : Outcome (Space × Host) α} {f : Space × Host → α → β}
    (h : Roomy (o.andThen fun state a => .ok state (f state a))) : Roomy o := by
  obtain ⟨state, answer⟩ := o
  cases answer with
  | ok a => exact ⟨rfl, h.short⟩
  | error reason => exact ⟨(denied_error reason).trans h.granted, h.short⟩

theorem Roomy.of_map {α β : Type} {o : Outcome (Space × Host) α} {f : α → β}
    (h : Roomy (o.map f)) : Roomy o := Roomy.first h

namespace Presents

variable {a b : Space × Host} {s : Space} {h : Host} {v : Face}

/-- A range of the space is that range of the face. -/
theorem shown_eq (hp : Presents a v) {offset length : Nat} (hle : offset + length ≤ v.size) :
    shown a offset length = v.bytes offset length :=
  calc shown a offset length = bytesAt a offset length :=
        Space.shown_eq hp.stands (hp.size.symm ▸ hle)
    _ = v.bytes offset length := List.map_congr_left fun i _ => hp.byte (offset + i)

/-- A quiet run shows no other byte. -/
theorem of_quiet (hp : Presents a v) (hb : Stands b) (hrun : ReflTransGen Quiet a b) :
    Presents b { v with size := b.1.logicalSize, free := b.1.free } := by
  obtain ⟨hgrowable, hsettings⟩ := quiet_settings hrun
  exact ⟨hb, hgrowable.trans hp.growable, by rw [hsettings]; exact hp.granularity, rfl, rfl,
    fun x => (byteAt_of_quiet hp.stands hrun x).trans (hp.byte x)⟩

/-! ### The calls -/

theorem extend (hp : Presents (s, h) v) {size : Nat} (hroomy : Roomy (s.extend h size)) :
    Matches (s.extend h size) (v.extend size) := by
  have hsize : s.logicalSize = v.size := hp.size
  have hfree : s.free = v.free := hp.free
  have hstands := hp.stands.leads (leads_extend s h size)
  have hquiet := hp.of_quiet hstands (extend_quiet h size)
  have hcovered := hstands.sound.covered
  have hshort := hroomy.short
  cases hextend : s.extend h size with
  | mk state answer =>
  simp only [hextend] at hstands hquiet hcovered hshort
  cases answer with
  | ok a =>
    obtain ⟨hpool, hlonger⟩ := extend_ok (hextend : s.extend h size = .ok (state.1, state.2) ())
    have hfits : v.size + size < Disk.lengthBound := by
      rw [← hsize, ← hlonger]
      exact hcovered.trans_lt hshort
    rw [hlonger, hpool, hsize, hfree] at hquiet
    unfold Face.extend
    by_cases hzero : size = 0
    · rw [if_pos hzero]
      subst hzero
      exact ⟨rfl, hquiet⟩
    · rw [if_neg hzero, if_neg (Nat.not_le.2 hfits)]
      exact ⟨rfl, hquiet⟩
  | error f =>
    have hanswer : (s.extend h size).answer = .error f := by rw [hextend]
    have hstate := extend_error hanswer
    rw [hextend] at hstate
    rcases extend_failure hp.growable hp.granularity hanswer with
      ⟨amount, refusals, rfl⟩ | ⟨rfl, hlong⟩
    · have hgranted := hroomy.granted
      rw [hanswer] at hgranted
      cases hgranted
    · have hbound : Offset.bound = 2 * Disk.lengthBound := by decide
      have hzero : size ≠ 0 := by
        rintro rfl
        rw [Space.extend, if_pos rfl] at hanswer
        cases hanswer
      rw [hsize] at hlong
      have hface : v.extend size = .fail v (.invalidRange v.size size) := by
        rw [Face.extend, if_neg hzero, if_pos (by omega)]
      rw [hface, hsize]
      exact ⟨rfl, hstate ▸ hp⟩

theorem read_eq (hp : Presents (s, h) v) (offset length : Nat) :
    (s.read h offset length).complete = v.read offset length := by
  have hsize : s.logicalSize = v.size := hp.size
  unfold Face.read
  by_cases hle : offset + length ≤ v.size
  · rw [if_pos hle, read_complete hp.stands (hsize.symm ▸ hle), hp.shown_eq hle]
  · rw [if_neg hle, read_refused hp.stands (hsize.symm ▸ not_le.1 hle), hsize]

theorem write (hp : Presents (s, h) v) (offset : Nat) (bytes : List UInt8) :
    Matches (s.write h offset bytes) (v.write offset bytes) := by
  have hsize : s.logicalSize = v.size := hp.size
  unfold Face.write
  by_cases hle : offset + bytes.length ≤ v.size
  · rw [if_pos hle]
    obtain ⟨b, hwrite, hrewrites⟩ := write_ok hp.stands offset bytes (hsize.symm ▸ hle)
    -- a write changes the chain and the disk alone
    obtain ⟨chain, disk, hstate, -⟩ := outline_write hp.stands.sound h offset bytes
    rw [hwrite] at hstate ⊢
    cases hstate
    refine ⟨rfl, hrewrites.stands, hp.growable, hp.granularity, hp.size, hp.free, ?_⟩
    intro x
    simp only [Outcome.ok]
    rw [hrewrites.image, List.getD_eq_getElem?_getD,
      getElem?_overwritten (hrewrites.offset_le hp.stands)]
    simp only [Face.overwrite]
    split
    · rw [List.getD_eq_getElem?_getD]
    · exact (List.getD_eq_getElem?_getD ..).symm.trans (hp.byte x)
  · rw [if_neg hle, write_error hp.stands.sound h (hsize.symm ▸ not_le.1 hle), hsize]
    exact ⟨rfl, hp⟩

theorem withPool (hp : Presents (s, h) v) {free : Pool}
    (hstands : Stands ({ s with free := free }, h)) :
    Presents ({ s with free := free }, h) { v with free := free } :=
  ⟨hstands, hp.growable, hp.granularity, hp.size, rfl, hp.byte⟩

theorem allocate (hp : Presents (s, h) v) {size : Nat} (hroomy : Roomy (s.allocate h size)) :
    Matches (s.allocate h size) (v.allocate size) := by
  have hsize : s.logicalSize = v.size := hp.size
  have hfree : s.free = v.free := hp.free
  have hstands := hp.stands.leads (leads_allocate s h size)
  unfold Space.allocate at hroomy hstands ⊢
  unfold Face.allocate
  by_cases hzero : size = 0
  · rw [if_pos hzero, if_pos hzero, hsize]
    exact ⟨rfl, hp⟩
  · rw [if_neg hzero] at hroomy hstands ⊢
    rw [if_neg hzero, ← hfree]
    cases hfit : s.free.allocate size with
    | some found =>
      rw [hfit] at hstands
      exact ⟨rfl, hp.withPool hstands⟩
    | none =>
      rw [hfit] at hroomy
      refine (hp.extend (Roomy.first hroomy)).andThen ?_
      rintro ⟨s', h'⟩ w ⟨⟩ hpresents
      exact ⟨congrArg (fun n => Except.ok (n - size)) hpresents.size, hpresents⟩

theorem release (hp : Presents (s, h) v) (offset size : Nat) :
    (∃ f, s.release offset size = .error f ∧ v.release offset size = .error f) ∨
      ∃ s' v', s.release offset size = .ok s' ∧ v.release offset size = .ok v' ∧
        Presents (s', h) v' := by
  have hsize : s.logicalSize = v.size := hp.size
  have hfree : s.free = v.free := hp.free
  have hstands : ∀ s', s.release offset size = .ok s' → Stands (s', h) := fun s' hr =>
    hp.stands.leads (leads_release h hr)
  unfold Space.release at hstands ⊢
  unfold Face.release
  by_cases hzero : size = 0
  · rw [if_pos hzero, if_pos hzero]
    exact .inl ⟨_, rfl, rfl⟩
  · rw [if_neg hzero] at hstands ⊢
    rw [if_neg hzero, ← hfree]
    have hcovers : s.covers offset size = true ↔ offset + size ≤ v.size := by
      rw [covers_iff hp.stands.sound, hsize]
    by_cases hle : offset + size ≤ v.size
    · rw [if_pos (hcovers.2 hle)] at hstands ⊢
      rw [if_pos hle]
      cases hr : s.free.release offset size with
      | error f => exact .inl ⟨f, rfl, rfl⟩
      | ok free =>
        rw [hr] at hstands
        exact .inr ⟨_, _, rfl, rfl, hp.withPool (hstands _ rfl)⟩
    · rw [if_neg (hcovers.not.2 hle), if_neg hle, hsize]
      exact .inl ⟨_, rfl, rfl⟩

/-- A space that has room answers a call as its face does. -/
theorem call (hp : Presents (s, h) v) {c : Call} (hroomy : Roomy (s.call h c)) :
    Matches (s.call h c) (v.call c) := by
  cases c with
  | extend size => exact (hp.extend (Roomy.of_map hroomy)).map _
  | read offset length =>
    simp only [Space.call, Face.call, hp.read_eq offset length]
    cases v.read offset length with
    | ok bytes => exact ⟨rfl, hp⟩
    | error f => exact ⟨rfl, hp⟩
  | write offset bytes => exact (hp.write offset bytes).map _
  | allocate size => exact (hp.allocate (Roomy.of_map hroomy)).map _
  | release offset size =>
    simp only [Space.call, Face.call]
    rcases hp.release offset size with ⟨f, hs, hv⟩ | ⟨s', v', hs, hv, hpresents⟩
    · rw [hs, hv]
      exact ⟨rfl, hp⟩
    · rw [hs, hv]
      exact ⟨rfl, hpresents⟩

end Presents

/-- A new space presents the bytes of the caller's buffer, and zeros past them. -/
theorem presents_create {r r' : Registry} {options : SpaceOptions} {s : Space} {h : Host}
    (hcreate : create r options = .ok (s, r')) (hstands : Stands (s, h))
    (hgrowable : options.growable = true)
    (hgranularity : h.registry.settings.granularity < Offset.bound) :
    Presents (s, h) (.ofBytes ((options.initial.map Buffer.toList).getD [])) := by
  have himage := image_create hcreate h.disk
  obtain ⟨stem, -, rfl⟩ := create_ok hcreate
  refine ⟨hstands, hgrowable, hgranularity, rfl, rfl, ?_⟩
  intro x
  rw [himage]
  rfl

end Space

end SpillStorage
