import SpillStorage.Proofs.Space.Course

/-!
How long the chain of a space is.

What is proved:
  1. `Snug.lengthen` and `Snug.extend`: behind the caller's buffer, the chain is the least multiple
     of the granularity that the size of the space needs, and being lengthened keeps it so.
  2. `Snug.unused_le`: so less than the granularity is unused.
  3. `Course.snug`: so it is on every course.

A space rounds up what it lacks, each time anew. The sum of the roundings is the rounding of the sum
because the chain behind the caller's buffer is a multiple of the granularity all the while.
-/

namespace SpillStorage.Space

/-- Behind the caller's `n` bytes, the chain is the least multiple of the granularity that the size
of the space needs. -/
def Snug (n granularity : Nat) (s : Space) : Prop :=
  ∃ m, s.physicalSize = n + m ∧ IsLeast {m | granularity ∣ m ∧ s.logicalSize - n ≤ m} m

variable {a b : Space × Host} {s : Space} {h : Host} {ws : List Store} {n granularity size : Nat}

namespace Snug

/-- Only the two sizes count. -/
theorem congr (hs : Snug n granularity s) {t : Space} (hchain : t.chain.size = s.chain.size)
    (hlength : t.logicalSize = s.logicalSize) : Snug n granularity t := by
  unfold Snug physicalSize
  rw [hchain, hlength]
  exact hs

/-- A longer space needs no more, if the chain covers it. -/
theorem lengthen (hs : Snug n granularity s) {logicalSize : Nat} (hle : s.logicalSize ≤ logicalSize)
    (hcovered : logicalSize ≤ s.chain.size) :
    Snug n granularity { s with logicalSize := logicalSize } := by
  obtain ⟨m, hm, ⟨hdvd, -⟩, hleast⟩ := hs
  have hchain : s.chain.size = n + m := hm
  refine ⟨m, hm, ⟨hdvd, ?_⟩, ?_⟩
  · show logicalSize - n ≤ m
    omega
  · rintro k ⟨hk, hneeded⟩
    have hneeded : logicalSize - n ≤ k := hneeded
    exact hleast ⟨hk, by omega⟩

/-- What is lacking is rounded up, on top of a multiple of the granularity. -/
theorem grow (hs : Snug n granularity s) (hpos : 0 < granularity)
    (hgranularity : h.registry.settings.granularity = granularity) {amount : Nat}
    (hlacks : s.Lacks h size amount) {t : Space} (hchain : t.chain.size = s.chain.size + amount) :
    Snug n granularity { t with logicalSize := s.logicalSize + size } := by
  obtain ⟨m, hm, ⟨hdvd, -⟩, -⟩ := hs
  have hphysical : s.chain.size = n + m := hm
  have huncovered := hlacks.uncovered
  have halign := hlacks.amount
  rw [hgranularity] at halign
  obtain ⟨⟨hmultiple, hlacking⟩, hleast⟩ := Offset.alignUp?_isLeast hpos halign
  refine ⟨m + amount, ?_, ⟨Nat.dvd_add hdvd hmultiple, ?_⟩, ?_⟩
  · show t.chain.size = n + (m + amount)
    omega
  · show s.logicalSize + size - n ≤ m + amount
    omega
  · rintro k ⟨hk, hneeded⟩
    have hneeded : s.logicalSize + size - n ≤ k := hneeded
    have hrest : amount ≤ k - m := hleast ⟨Nat.dvd_sub hk hdvd, by omega⟩
    omega

theorem extend (hs : Snug n granularity s) (hpos : 0 < granularity)
    (hgranularity : h.registry.settings.granularity = granularity) (size : Nat) :
    Snug n granularity (s.extend h size).state.1 := by
  rcases s.extend_cases h size with
    ⟨f, heq⟩ | ⟨-, heq⟩ | ⟨-, -, hle, heq⟩ | ⟨amount, s', h', hlacks, hgrows, heq⟩
  all_goals rw [heq]
  · exact hs
  · exact hs
  · exact hs.lengthen (Nat.le_add_right _ _) hle
  · exact hs.grow hpos hgranularity hlacks hgrows.size

/-- Less than the granularity is unused. -/
theorem unused_le (hs : Snug n granularity s) (hpos : 0 < granularity) (hlt : n < s.logicalSize) :
    s.physicalSize - s.logicalSize ≤ granularity - 1 := by
  obtain ⟨m, hm, ⟨hdvd, hneeded⟩, hleast⟩ := hs
  have hneeded : s.logicalSize - n ≤ m := hneeded
  have hle : granularity ≤ m := Nat.le_of_dvd (by omega) hdvd
  -- a whole multiple less would not do
  have hshort : m - granularity < s.logicalSize - n := by
    by_contra henough
    have hless : m ≤ m - granularity :=
      hleast ⟨Nat.dvd_sub hdvd (Nat.dvd_refl _), Nat.le_of_not_lt henough⟩
    omega
  omega

end Snug

/-- A new space is as long as the caller's buffer, and needs nothing. -/
theorem snug_create {r r' : Registry} {options : SpaceOptions} (granularity : Nat)
    (hcreate : create r options = .ok (s, r')) :
    Snug ((options.initial.map Buffer.size).getD 0) granularity s := by
  obtain ⟨stem, -, rfl⟩ := create_ok hcreate
  refine ⟨0, ?_, ⟨Nat.dvd_zero _, ?_⟩, fun k _ => Nat.zero_le k⟩
  · cases options.initial with
    | none => rfl
    | some buffer => exact (Chain.size_pushMemory _ _ _).trans (Nat.zero_add _)
  · exact Nat.le_of_eq (Nat.zero_sub _)

theorem Moves.snug (hm : Moves a ws b) (ha : Stands a) (hpos : 0 < granularity)
    (hgranularity : a.2.registry.settings.granularity = granularity)
    (hs : Snug n granularity a.1) : Snug n granularity b.1 := by
  cases hm with
  | pool hfree hbelow => exact hs.congr rfl rfl
  | extend s h size => exact hs.extend hpos hgranularity size
  | @write s h offset bytes b hwrite =>
    obtain ⟨chain, disk, hstate, houtline⟩ := outline_write ha.sound h offset bytes
    rw [hwrite] at hstate
    cases hstate
    exact hs.congr (Chain.size_of_outline houtline) rfl
  | store h hstore =>
    obtain ⟨chain, rfl, houtline⟩ := outline_store ha.sound hstore
    exact hs.congr (Chain.size_of_outline houtline) rfl
  | wait hstands hsame hsettings => exact hs

theorem Course.snug (hc : Course a ws b) (ha : Stands a) (hpos : 0 < granularity)
    (hgranularity : a.2.registry.settings.granularity = granularity)
    (hs : Snug n granularity a.1) : Snug n granularity b.1 := by
  refine (hc.induction (P := fun x => x.2.registry.settings.granularity = granularity ∧
    Snug n granularity x.1) ?_ ha ⟨hgranularity, hs⟩).2.2
  intro x more y hx hmoves hsnug
  have hsettings := hmoves.settings hx
  exact ⟨(congrArg Settings.granularity hsettings).trans hsnug.1,
    hmoves.snug hx hpos hsnug.1 hsnug.2⟩

end SpillStorage.Space
