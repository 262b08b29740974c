import SpillStorage.Space
import SpillStorage.Proofs.Offset
import SpillStorage.Proofs.SpillFiles

/-!
How a space grows.

What is proved:
  1. `grow_cases`: the chain gets exactly the bytes that were asked for, in memory or in a file, or
     nothing changes at all.
  2. `extend_cases`: so it is when the space is lengthened.
  3. `extend_failure`: a space that may grow refuses to be lengthened for want of room only, or
     because it would be too long.
  4. `allocate_source`: what is allocated comes from the pool, or from the end of the longer space.
-/

namespace SpillStorage.Space

/-- The space and its host with `amount` more bytes in the chain. -/
inductive Grows (s : Space) (h : Host) (amount : Nat) : Space → Host → Prop
  | memory {registry : Registry} (hreserved : h.registry.reserveCache? amount = some registry) :
      Grows s h amount
        { s with
          chain := s.chain.pushMemory (Buffer.zeros amount) false
          cacheUsage := s.cacheUsage + amount }
        { h with registry := registry }
  | file {files : SpillFiles} {h' : Host} {extent : Extent}
      (hclaims : s.files.Claims h amount files h' extent) :
      Grows s h amount
        { s with
          files := files
          chain := (s.chain.pushFile extent.file extent.offset amount).2 }
        h'

theorem growInMemory_cases (s : Space) (h : Host) (amount : Nat) :
    s.growInMemory h amount = ((s, h), false) ∨
      ∃ s' h', s.growInMemory h amount = ((s', h'), true) ∧ Grows s h amount s' h' := by
  unfold growInMemory
  cases hreserved : h.registry.reserveCache? amount with
  | none => exact .inl rfl
  | some registry =>
    simp only
    split
    · exact .inr ⟨_, _, rfl, .memory hreserved⟩
    · left
      simp only [Host.releaseCache, Registry.releaseCache_reserve hreserved]

theorem growOnDisk_cases (s : Space) (h : Host) (amount : Nat) :
    (∃ f, s.growOnDisk h amount = .fail (s, h) f) ∨
      ∃ s' h', s.growOnDisk h amount = .ok (s', h') () ∧ Grows s h amount s' h' := by
  unfold growOnDisk
  cases hclaim : (s.files.claim h amount).answer with
  | error f =>
    refine .inl ⟨f, ?_⟩
    simp only [SpillFiles.claim_error hclaim, hclaim]
  | ok extent =>
    refine .inr ⟨_, _, ?_, .file (SpillFiles.claim_ok hclaim)⟩
    simp only [hclaim]

theorem grow_cases (s : Space) (h : Host) (amount : Nat) :
    (∃ f, s.grow h amount = .fail (s, h) f) ∨
      ∃ s' h', s.grow h amount = .ok (s', h') () ∧ Grows s h amount s' h' := by
  unfold grow
  rcases s.growInMemory_cases h amount with heq | ⟨s', h', heq, hgrows⟩
  · rw [heq]
    exact s.growOnDisk_cases h amount
  · rw [heq]
    exact .inr ⟨s', h', rfl, hgrows⟩

/-! ## Being lengthened -/

/-- To be lengthened by `size` bytes, the space needs `amount` bytes more than its chain covers. -/
structure Lacks (s : Space) (h : Host) (size amount : Nat) : Prop where
  growable : s.growable = true
  positive : 0 < size
  bounded : s.logicalSize + size < Offset.bound
  uncovered : s.chain.size < s.logicalSize + size
  amount : Offset.alignUp? (s.logicalSize + size - s.chain.size) h.registry.settings.granularity =
    some amount

instance {s : Space} {h : Host} {size amount : Nat} : Decidable (s.Lacks h size amount) :=
  decidable_of_iff
    (s.growable = true ∧ 0 < size ∧ s.logicalSize + size < Offset.bound ∧
      s.chain.size < s.logicalSize + size ∧
      Offset.alignUp? (s.logicalSize + size - s.chain.size) h.registry.settings.granularity =
        some amount)
    ⟨fun ⟨hgrowable, hpositive, hbounded, huncovered, hamount⟩ =>
        ⟨hgrowable, hpositive, hbounded, huncovered, hamount⟩,
      fun hlacks => ⟨hlacks.growable, hlacks.positive, hlacks.bounded, hlacks.uncovered,
        hlacks.amount⟩⟩

namespace Lacks

variable {s : Space} {h : Host} {size amount : Nat}

theorem extend_eq (hlacks : s.Lacks h size amount) : s.extend h size =
    (s.grow h amount).andThen fun (s', h') () =>
      .ok ({ s' with logicalSize := s.logicalSize + size }, h') () := by
  have hsum : Offset.sum? s.logicalSize size = some (s.logicalSize + size) :=
    Offset.sum?_eq_some_iff.2 ⟨rfl, hlacks.bounded⟩
  unfold extend
  rw [if_neg (Nat.pos_iff_ne_zero.1 hlacks.positive)]
  simp only [hsum, if_neg (Nat.not_le.2 hlacks.uncovered), hlacks.growable, Bool.not_true,
    Bool.false_eq_true, if_false, hlacks.amount]

/-- What it needs is enough. -/
theorem covered (hlacks : s.Lacks h size amount) :
    s.logicalSize + size ≤ s.chain.size + amount := by
  have hle := Offset.alignUp?_le hlacks.amount
  omega

theorem amount_pos (hlacks : s.Lacks h size amount) : 0 < amount := by
  have hcovered := hlacks.covered
  have := hlacks.uncovered
  omega

end Lacks

/-- A space is lengthened over bytes that its chain covers already, or over what it lacks as well;
if that fails, nothing changes. -/
theorem extend_cases (s : Space) (h : Host) (size : Nat) :
    (∃ f, s.extend h size = .fail (s, h) f) ∨
    (size = 0 ∧ s.extend h size = .ok (s, h) ()) ∨
    (0 < size ∧ s.logicalSize + size < Offset.bound ∧ s.logicalSize + size ≤ s.chain.size ∧
      s.extend h size = .ok ({ s with logicalSize := s.logicalSize + size }, h) ()) ∨
    ∃ amount s' h', s.Lacks h size amount ∧ Grows s h amount s' h' ∧
      s.extend h size = .ok ({ s' with logicalSize := s.logicalSize + size }, h') () := by
  by_cases hlacks : ∃ amount, s.Lacks h size amount
  · obtain ⟨amount, hlacks⟩ := hlacks
    rw [hlacks.extend_eq]
    rcases s.grow_cases h amount with ⟨f, heq⟩ | ⟨s', h', heq, hgrows⟩
    · rw [heq]
      exact .inl ⟨f, rfl⟩
    · rw [heq]
      exact .inr (.inr (.inr ⟨amount, s', h', hlacks, hgrows, rfl⟩))
  -- what is refused for another reason than want of room is refused at once
  · unfold extend
    by_cases hsize : size = 0
    · rw [if_pos hsize]
      exact .inr (.inl ⟨hsize, rfl⟩)
    · rw [if_neg hsize]
      cases hsum : Offset.sum? s.logicalSize size with
      | none => exact .inl ⟨_, rfl⟩
      | some logicalSize =>
        obtain ⟨rfl, hbound⟩ := Offset.sum?_eq_some_iff.1 hsum
        simp only
        split
        · next hle => exact .inr (.inr (.inl ⟨by omega, hbound, hle, rfl⟩))
        · next hgt =>
          split
          · exact .inl ⟨_, rfl⟩
          · next hgrowable =>
            cases halign : Offset.alignUp? (s.logicalSize + size - s.chain.size)
                h.registry.settings.granularity with
            | none => exact .inl ⟨_, rfl⟩
            | some amount =>
              exact absurd ⟨amount, by simpa using hgrowable, by omega, hbound, by omega, halign⟩
                hlacks

/-! ## Why growth fails -/

theorem grow_failure {s : Space} {h : Host} {amount : Nat} {f : Failure}
    (hg : (s.grow h amount).answer = .error f) :
    ∃ refusals, f = .outOfTempSpace amount refusals := by
  unfold grow at hg
  rcases s.growInMemory_cases h amount with heq | ⟨s', h', heq, -⟩
  · rw [heq] at hg
    unfold growOnDisk at hg
    cases hclaim : (s.files.claim h amount).answer with
    | error reason =>
      simp only [hclaim] at hg
      cases hg
      exact SpillFiles.claimFrom_failure hclaim
    | ok extent =>
      simp only [hclaim] at hg
      cases hg
  · rw [heq] at hg
    cases hg

/-- Rounding up at most doubles a value, or leads to the granularity. -/
theorem alignUp?_none {value granularity : Nat} (hgranularity : granularity < Offset.bound)
    (h : Offset.alignUp? value granularity = none) : Offset.bound ≤ 2 * value := by
  unfold Offset.alignUp? at h
  split at h
  · cases h
  · split at h
    · cases h
    · next hrest =>
      rw [Offset.sum?_eq_none_iff] at h
      have hle : value % granularity ≤ value := Nat.mod_le _ _
      by_cases hlt : value < granularity
      · rw [Nat.mod_eq_of_lt hlt] at h
        omega
      · omega

/-- A space that may grow refuses to be lengthened for want of room only, or because its new size
is more than half of what offsets can tell apart. -/
theorem extend_failure {s : Space} {h : Host} {size : Nat} {f : Failure}
    (hgrowable : s.growable = true)
    (hgranularity : h.registry.settings.granularity < Offset.bound)
    (he : (s.extend h size).answer = .error f) :
    (∃ amount refusals, f = .outOfTempSpace amount refusals) ∨
      (f = .invalidRange s.logicalSize size ∧ Offset.bound ≤ 2 * (s.logicalSize + size)) := by
  unfold extend at he
  split at he
  · cases he
  · cases hsum : Offset.sum? s.logicalSize size with
    | none =>
      simp only [hsum] at he
      cases he
      rw [Offset.sum?_eq_none_iff] at hsum
      exact .inr ⟨rfl, by omega⟩
    | some logicalSize =>
      obtain ⟨rfl, -⟩ := Offset.sum?_eq_some_iff.1 hsum
      simp only [hsum] at he
      split at he
      · cases he
      · simp only [hgrowable, Bool.not_true, Bool.false_eq_true, if_false] at he
        cases halign : Offset.alignUp? (s.logicalSize + size - s.chain.size)
            h.registry.settings.granularity with
        | none =>
          simp only [halign] at he
          cases he
          have := alignUp?_none hgranularity halign
          exact .inr ⟨rfl, by omega⟩
        | some amount =>
          simp only [halign] at he
          cases hgrow : (s.grow h amount).answer with
          | ok a =>
            simp only [Outcome.andThen, hgrow] at he
            cases he
          | error reason =>
            simp only [Outcome.andThen, hgrow] at he
            cases he
            obtain ⟨refusals, rfl⟩ := grow_failure hgrow
            exact .inl ⟨amount, refusals, rfl⟩

/-! ## What growth keeps -/

theorem Grows.keeps {s s' : Space} {h h' : Host} {amount : Nat} (hg : Grows s h amount s' h') :
    s'.free = s.free ∧ s'.logicalSize = s.logicalSize := by
  cases hg <;> exact ⟨rfl, rfl⟩

/-- To lengthen a space leaves the pool as it is, whether it succeeds or not. -/
theorem extend_ok {s s' : Space} {h h' : Host} {size : Nat}
    (he : s.extend h size = .ok (s', h') ()) :
    s'.free = s.free ∧ s'.logicalSize = s.logicalSize + size := by
  rcases s.extend_cases h size with
    ⟨f, heq⟩ | ⟨hsize, heq⟩ | ⟨-, -, -, heq⟩ | ⟨amount, t, ht, -, hgrows, heq⟩
  all_goals
    rw [heq] at he
    cases he
  · exact ⟨rfl, by omega⟩
  · exact ⟨rfl, rfl⟩
  · exact ⟨hgrows.keeps.1, rfl⟩

/-- A range is allocated from the pool or, if that has none, at the end of the longer space. -/
theorem allocate_source {s s' : Space} {h h' : Host} {size offset : Nat} (hsize : 0 < size)
    (ha : s.allocate h size = .ok (s', h') offset) :
    (∃ free, s.free.allocate size = some (offset, free) ∧ s' = { s with free := free } ∧ h' = h) ∨
      (s.free.allocate size = none ∧ s.extend h size = .ok (s', h') () ∧
        offset = s.logicalSize) := by
  unfold allocate at ha
  rw [if_neg (Nat.pos_iff_ne_zero.1 hsize)] at ha
  cases hfree : s.free.allocate size with
  | some found =>
    obtain ⟨place, free⟩ := found
    rw [hfree] at ha
    cases ha
    exact .inl ⟨free, rfl, rfl, rfl⟩
  | none =>
    rw [hfree] at ha
    cases hextend : s.extend h size with
    | mk state answer =>
    cases answer with
    | error f =>
      simp only [hextend, Outcome.andThen] at ha
      cases ha
    | ok a =>
      simp only [hextend, Outcome.andThen] at ha
      cases ha
      obtain ⟨-, hlonger⟩ := extend_ok (hextend : s.extend h size = .ok (state.1, state.2) ())
      exact .inr ⟨rfl, rfl, by omega⟩

end SpillStorage.Space
