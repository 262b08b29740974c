import Mathlib.Logic.Relation
import SpillStorage.Proofs.Space.Batch

/-!
What operations do to a space and its host, as runs of small changes.

What is proved:
  1. `Change.sound`: every change keeps a space sound.
  2. `extend_quiet`, `allocate_quiet`, `release_quiet` and `allocateBatch_quiet`: these operations
     are runs of quiet changes, whether they succeed or fail.
  3. `serve_changes`: whatever a space is asked to do is a run of changes.

An invariant of spaces has to be checked for the five changes only, and holds after every
operation then.
-/

namespace SpillStorage.Space

open Relation

/-- A change that touches no byte of the space. -/
inductive Quiet : Space × Host → Space × Host → Prop
  /-- Other bytes are free. -/
  | pool {s : Space} {h : Host} {free : Pool} (hfree : free.Sound)
      (hbelow : ∀ x ∈ free.bytes, x < s.logicalSize) : Quiet (s, h) ({ s with free := free }, h)
  /-- The space covers more of its chain. -/
  | lengthen {s : Space} {h : Host} {logicalSize : Nat} (hle : s.logicalSize ≤ logicalSize)
      (hcovered : logicalSize ≤ s.chain.size) (hbound : logicalSize < Offset.bound) :
      Quiet (s, h) ({ s with logicalSize := logicalSize }, h)
  /-- The chain gets more bytes. -/
  | grow {s s' : Space} {h h' : Host} {amount : Nat} (hamount : 0 < amount)
      (hgrows : Grows s h amount s' h') : Quiet (s, h) (s', h')

/-- A quiet change, or one that writes. -/
inductive Change : Space × Host → Space × Host → Prop
  | quiet {a b : Space × Host} (hquiet : Quiet a b) : Change a b
  | write (s : Space) (h : Host) (offset : Nat) (bytes : List UInt8) :
      Change (s, h) (s.write h offset bytes).state
  | store {s s' : Space} {offset size : Nat} {bytes : List UInt8} (h : Host)
      (hstore : s.storeInMemory? offset size bytes = some s') : Change (s, h) (s', h)

theorem changes_of_quiet {a b : Space × Host} (h : ReflTransGen Quiet a b) :
    ReflTransGen Change a b := ReflTransGen.mono (fun _ _ => Change.quiet) _ _ h

/-! ## Soundness -/

theorem Grows.size {s s' : Space} {h h' : Host} {amount : Nat} (hg : Grows s h amount s' h') :
    s'.chain.size = s.chain.size + amount := by
  cases hg with
  | memory hreserved => exact Chain.size_pushMemory _ _ _
  | file hclaims => exact Chain.size_pushFile _ _ _ _

theorem Grows.sound {s s' : Space} {h h' : Host} {amount : Nat} (hs : s.Sound)
    (hamount : 0 < amount) (hg : Grows s h amount s' h') : s'.Sound := by
  cases hg with
  | memory hreserved =>
    refine ⟨hs.pool, hs.below, ?_, hs.bounded, hs.layout.pushMemory (by simp), ?_, ?_⟩
    · exact hs.covered.trans (by simp)
    · rw [Chain.memoryBytes_pushMemory, hs.memory]
      rfl
    · rw [Chain.fileBytes_pushMemory, hs.file]
  | file hclaims =>
    refine ⟨hs.pool, hs.below, ?_, hs.bounded, hs.layout.pushFile hamount hclaims, ?_, ?_⟩
    · exact hs.covered.trans (by simp)
    · rw [Chain.memoryBytes_pushFile, hs.memory]
    · rw [Chain.fileBytes_pushFile, hs.file, hclaims.totalSize]

theorem Quiet.sound {a b : Space × Host} (hq : Quiet a b) (ha : a.1.Sound) : b.1.Sound := by
  cases hq with
  | pool hfree hbelow => exact ha.withPool hfree hbelow
  | lengthen hle hcovered hbound =>
    exact ⟨ha.pool, fun x hx => Nat.lt_of_lt_of_le (ha.below x hx) hle, hcovered, hbound, ha.layout,
      ha.memory, ha.file⟩
  | grow hamount hgrows => exact hgrows.sound ha hamount

theorem outline_write {s : Space} (hs : s.Sound) (h : Host) (offset : Nat) (bytes : List UInt8) :
    ∃ chain disk,
      (s.write h offset bytes).state = ({ s with chain := chain }, { h with disk := disk }) ∧
      chain.outline = s.chain.outline := by
  unfold write
  split
  · exact ⟨_, _, rfl, Chain.outline_write hs.layout.buffers _ _ _ _⟩
  · exact ⟨s.chain, h.disk, rfl, rfl⟩

theorem outline_store {s s' : Space} (hs : s.Sound) {offset size : Nat} {bytes : List UInt8}
    (hstore : s.storeInMemory? offset size bytes = some s') :
    ∃ chain, s' = { s with chain := chain } ∧ chain.outline = s.chain.outline := by
  unfold storeInMemory? at hstore
  split at hstore
  · obtain ⟨chain, hchain, rfl⟩ := Option.map_eq_some_iff.1 hstore
    exact ⟨chain, rfl, Chain.outline_storeInMemory? hs.layout.buffers hchain⟩
  · cases hstore

theorem Change.sound {a b : Space × Host} (hc : Change a b) (ha : a.1.Sound) : b.1.Sound := by
  cases hc with
  | quiet hquiet => exact hquiet.sound ha
  | write s h offset bytes =>
    obtain ⟨chain, disk, heq, houtline⟩ := outline_write ha h offset bytes
    rw [heq]
    exact ha.of_outline houtline
  | store h hstore =>
    obtain ⟨chain, rfl, houtline⟩ := outline_store ha hstore
    exact ha.of_outline houtline

/-- What every change keeps, every run of changes keeps. -/
theorem changes_induction {P : Space × Host → Prop}
    (hstep : ∀ a b, a.1.Sound → Change a b → P a → P b) {a b : Space × Host}
    (hrun : ReflTransGen Change a b) (ha : a.1.Sound) (hp : P a) : b.1.Sound ∧ P b := by
  induction hrun with
  | refl => exact ⟨ha, hp⟩
  | tail _ hc ih => exact ⟨hc.sound ih.1, hstep _ _ ih.1 hc ih.2⟩

theorem changes_sound {a b : Space × Host} (hrun : ReflTransGen Change a b) (ha : a.1.Sound) :
    b.1.Sound :=
  (changes_induction (P := fun _ => True) (fun _ _ _ _ _ => trivial) hrun ha trivial).1

/-! ## The operations as runs -/

theorem extend_quiet {s : Space} (h : Host) (size : Nat) :
    ReflTransGen Quiet (s, h) (s.extend h size).state := by
  rcases s.extend_cases h size with
    ⟨f, heq⟩ | ⟨-, heq⟩ | ⟨-, hbound, hle, heq⟩ | ⟨amount, s', h', hlacks, hgrows, heq⟩
  all_goals rw [heq]
  · exact .refl
  · exact .refl
  · exact .single (.lengthen (Nat.le_add_right _ _) hle hbound)
  -- first the chain grows, then the space covers more of it
  · refine .tail (.single (.grow hlacks.amount_pos hgrows)) (.lengthen ?_ ?_ hlacks.bounded)
    · rw [hgrows.keeps.2]
      exact Nat.le_add_right _ _
    · rw [hgrows.size]
      exact hlacks.covered

/-- What an allocation leaves: nothing new, a smaller pool, or what lengthening the space leaves. -/
theorem allocate_state {s : Space} (hs : s.Sound) (h : Host) (size : Nat) :
    (s.allocate h size).state = (s, h) ∨
    (∃ free : Pool, free.Sound ∧ (∀ x ∈ free.bytes, x < s.logicalSize) ∧
      (s.allocate h size).state = ({ s with free := free }, h)) ∨
    (s.allocate h size).state = (s.extend h size).state := by
  unfold allocate
  split
  · exact .inl rfl
  · cases halloc : s.free.allocate size with
    | some found =>
      obtain ⟨offset, free⟩ := found
      obtain ⟨-, -, hfree, hbytes⟩ := Pool.allocate_some hs.pool halloc
      refine .inr (.inl ⟨free, hfree, fun x hx => hs.below x ?_, rfl⟩)
      rw [hbytes] at hx
      exact (Finset.mem_sdiff.1 hx).1
    | none =>
      right; right
      cases hanswer : (s.extend h size).answer with
      | ok a =>
        simp only [Outcome.andThen, hanswer]
        rfl
      | error f =>
        simp only [Outcome.andThen, hanswer]
        rfl

theorem allocate_quiet {s : Space} (hs : s.Sound) (h : Host) (size : Nat) :
    ReflTransGen Quiet (s, h) (s.allocate h size).state := by
  rcases allocate_state hs h size with heq | ⟨free, hfree, hbelow, heq⟩ | heq
  all_goals rw [heq]
  · exact .single (.pool hfree hbelow)
  · exact extend_quiet h size

theorem covers_iff {s : Space} (hs : s.Sound) {offset length : Nat} :
    s.covers offset length = true ↔ offset + length ≤ s.logicalSize := by
  have hbound := hs.bounded
  unfold covers
  cases hsum : Offset.sum? offset length with
  | none =>
    rw [Offset.sum?_eq_none_iff] at hsum
    simp only [Bool.false_eq_true, false_iff]
    omega
  | some last =>
    obtain ⟨rfl, -⟩ := Offset.sum?_eq_some_iff.1 hsum
    exact decide_eq_true_iff

/-- A range is released exactly if it is a range of the space in use. -/
theorem release_iff {s : Space} (hs : s.Sound) {offset size : Nat} :
    (∃ s', s.release offset size = .ok s') ↔ 0 < size ∧ offset + size ≤ s.logicalSize ∧
      Disjoint (Finset.Ico offset (offset + size)) s.free.bytes := by
  have hbound := hs.bounded
  have hpool := Pool.release_iff hs.pool offset size
  unfold release
  by_cases hsize : size = 0
  · rw [if_pos hsize]
    constructor
    · rintro ⟨s', hs'⟩
      cases hs'
    · rintro ⟨hpos, -⟩
      omega
  · rw [if_neg hsize]
    by_cases hcovers : s.covers offset size = true
    · rw [if_pos hcovers]
      rw [covers_iff hs] at hcovers
      cases hrelease : s.free.release offset size with
      | ok free =>
        obtain ⟨-, -, hdisjoint⟩ := hpool.1 ⟨free, hrelease⟩
        exact ⟨fun _ => ⟨by omega, hcovers, hdisjoint⟩, fun _ => ⟨_, rfl⟩⟩
      | error f =>
        constructor
        · rintro ⟨s', hs'⟩
          cases hs'
        · rintro ⟨hpos, -, hdisjoint⟩
          obtain ⟨q, hq⟩ := hpool.2 ⟨hpos, by omega, hdisjoint⟩
          rw [hrelease] at hq
          cases hq
    · rw [if_neg hcovers]
      rw [covers_iff hs] at hcovers
      constructor
      · rintro ⟨s', hs'⟩
        cases hs'
      · rintro ⟨-, hle, -⟩
        exact absurd hle hcovers

/-- To release a range touches nothing but the pool. -/
theorem release_eq {s s' : Space} {offset size : Nat} (hr : s.release offset size = .ok s') :
    ∃ free, s.free.release offset size = .ok free ∧ s' = { s with free := free } := by
  unfold release at hr
  split at hr
  · cases hr
  · split at hr
    · cases hrelease : s.free.release offset size with
      | ok free =>
        rw [hrelease] at hr
        cases hr
        exact ⟨free, rfl, rfl⟩
      | error f =>
        rw [hrelease] at hr
        cases hr
    · cases hr

/-- A range that is released is free, and nothing else changes. -/
theorem release_ok {s s' : Space} (hs : s.Sound) {offset size : Nat}
    (hr : s.release offset size = .ok s') :
    ∃ free, s' = { s with free := free } ∧ free.Sound ∧
      free.bytes = s.free.bytes ∪ Finset.Ico offset (offset + size) := by
  obtain ⟨free, hrelease, hs'⟩ := release_eq hr
  exact ⟨free, hs', Pool.release_ok hs.pool hrelease⟩

/-- What is free then lies in the space. -/
theorem release_pool {s s' : Space} (hs : s.Sound) {offset size : Nat}
    (hr : s.release offset size = .ok s') :
    ∃ free : Pool, s' = { s with free := free } ∧ free.Sound ∧
      ∀ x ∈ free.bytes, x < s.logicalSize := by
  obtain ⟨-, hle, -⟩ := (release_iff hs).1 ⟨s', hr⟩
  obtain ⟨free, rfl, hfree, hbytes⟩ := release_ok hs hr
  refine ⟨free, rfl, hfree, ?_⟩
  intro x hx
  rw [hbytes, Finset.mem_union, Finset.mem_Ico] at hx
  rcases hx with hx | hx
  · exact hs.below x hx
  · omega

theorem release_quiet {s s' : Space} (hs : s.Sound) (h : Host) {offset size : Nat}
    (hr : s.release offset size = .ok s') : Quiet (s, h) (s', h) := by
  obtain ⟨free, rfl, hfree, hbelow⟩ := release_pool hs hr
  exact .pool hfree hbelow

theorem allocateBatch_quiet {s : Space} (hs : s.Sound) (h : Host) (count least greatest : Nat) :
    ReflTransGen Quiet (s, h) (s.allocateBatch h count least greatest).state := by
  rcases allocateBatch_cases hs h count least greatest with
    ⟨free, f, hfree, hbytes, heq⟩ | ⟨free, regions, hc, heq⟩ |
    ⟨free, regions, size, missing, s', h', hc, -, hextend, heq⟩
  all_goals rw [heq]
  · exact .single (.pool hfree fun x hx => hs.below x (by rw [← hbytes]; exact hx))
  · exact .single (.pool hc.sound fun x hx => hs.below x (hc.subset hx))
  · have hrun := extend_quiet (s := { s with free := free }) h (size * missing)
    rw [hextend] at hrun
    exact .head (.pool hc.sound fun x hx => hs.below x (hc.subset hx)) hrun

/-! ## Requests -/

/-- What a space can be asked that may change it. -/
inductive Request where
  | extend (size : Nat)
  | write (offset : Nat) (bytes : List UInt8)
  /-- Stores bytes into the view in memory of `[offset, offset + size)`. -/
  | store (offset size : Nat) (bytes : List UInt8)
  | allocate (size : Nat)
  | release (offset size : Nat)
  | batch (count least greatest : Nat)

/-- The space and its host after a request, met or not. -/
def serve (s : Space) (h : Host) : Request → Space × Host
  | .extend size => (s.extend h size).state
  | .write offset bytes => (s.write h offset bytes).state
  | .store offset size bytes => ((s.storeInMemory? offset size bytes).getD s, h)
  | .allocate size => (s.allocate h size).state
  | .release offset size =>
    match s.release offset size with
    | .ok s => (s, h)
    | .error _ => (s, h)
  | .batch count least greatest => (s.allocateBatch h count least greatest).state

theorem serve_changes {s : Space} (hs : s.Sound) (h : Host) (r : Request) :
    ReflTransGen Change (s, h) (s.serve h r) := by
  cases r with
  | extend size => exact changes_of_quiet (extend_quiet h size)
  | write offset bytes => exact .single (.write s h offset bytes)
  | store offset size bytes =>
    simp only [serve]
    cases hstore : s.storeInMemory? offset size bytes with
    | none => exact .refl
    | some s' => exact .single (.store h hstore)
  | allocate size => exact changes_of_quiet (allocate_quiet hs h size)
  | release offset size =>
    simp only [serve]
    cases hr : s.release offset size with
    | error f => exact .refl
    | ok s' => exact .single (.quiet (release_quiet hs h hr))
  | batch count least greatest =>
    exact changes_of_quiet (allocateBatch_quiet hs h count least greatest)

theorem serve_sound {s : Space} (hs : s.Sound) (h : Host) (r : Request) : (s.serve h r).1.Sound :=
  changes_sound (serve_changes hs h r) hs

end SpillStorage.Space
