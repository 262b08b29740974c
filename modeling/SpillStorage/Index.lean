/-!
An index maps numbers to values and lists its entries by increasing key. The order is part of the
type, so two indexes with the same lookups are equal, and neighbour queries (`lastBefore`,
`lastUpTo`, `firstFrom`) read straight off the list. Main statements: `get?_insert` and
`get?_erase`.
-/

namespace SpillStorage

/-- A finite map from numbers, held as entries with increasing keys. -/
structure Index (α : Type) where
  entries : List (Nat × α)
  sorted : entries.Pairwise fun a b => a.1 < b.1
  deriving DecidableEq

namespace Index

variable {α : Type}

def empty : Index α := ⟨[], .nil⟩

instance : Inhabited (Index α) := ⟨empty⟩

def size (m : Index α) : Nat := m.entries.length

def keys (m : Index α) : List Nat := m.entries.map (·.1)

def values (m : Index α) : List α := m.entries.map (·.2)

/-- The value under `key`. -/
def get? (m : Index α) (key : Nat) : Option α :=
  (m.entries.find? fun e => e.1 == key).map (·.2)

/-- The map with `value` under `key`, in place of what was there. -/
def insert (m : Index α) (key : Nat) (value : α) : Index α where
  entries := m.entries.filter (fun e => decide (e.1 < key)) ++
    (key, value) :: m.entries.filter (fun e => decide (key < e.1))
  sorted := by
    refine List.pairwise_append.2 ⟨m.sorted.filter _, ?_, ?_⟩
    · refine List.pairwise_cons.2 ⟨fun e he => ?_, m.sorted.filter _⟩
      simpa using (List.mem_filter.1 he).2
    · intro a ha b hb
      have hlt : a.1 < key := by simpa using (List.mem_filter.1 ha).2
      rcases List.mem_cons.1 hb with rfl | hb
      · exact hlt
      · have hgt : key < b.1 := by simpa using (List.mem_filter.1 hb).2
        exact Nat.lt_trans hlt hgt

/-- The map without an entry under `key`. -/
def erase (m : Index α) (key : Nat) : Index α where
  entries := m.entries.filter fun e => e.1 != key
  sorted := m.sorted.filter _

/-- The entry with the greatest key below `key`. -/
def lastBefore (m : Index α) (key : Nat) : Option (Nat × α) :=
  (m.entries.filter fun e => decide (e.1 < key)).getLast?

/-- The entry with the greatest key at or below `key`. -/
def lastUpTo (m : Index α) (key : Nat) : Option (Nat × α) :=
  (m.entries.filter fun e => decide (e.1 ≤ key)).getLast?

/-- The entry with the least key at or above `key`. -/
def firstFrom (m : Index α) (key : Nat) : Option (Nat × α) :=
  m.entries.find? fun e => decide (key ≤ e.1)

/-- The greatest key. -/
def lastKey? (m : Index α) : Option Nat := m.entries.getLast?.map (·.1)

/-! ## Entries and lookups -/

/-- A key stands in one entry only. -/
theorem value_unique (m : Index α) {key : Nat} {v w : α}
    (hv : (key, v) ∈ m.entries) (hw : (key, w) ∈ m.entries) : v = w := by
  have irreflexive : ∀ l : List (Nat × α), l.Pairwise (fun a b => a.1 < b.1) →
      (key, v) ∈ l → (key, w) ∈ l → v = w := by
    intro l hl
    induction hl with
    | nil => simp
    | cons hx _ ih =>
      intro h₁ h₂
      rcases List.mem_cons.1 h₁ with h₁ | h₁ <;> rcases List.mem_cons.1 h₂ with h₂ | h₂
      · exact congrArg Prod.snd (h₁.trans h₂.symm)
      · have := hx _ h₂; simp [← h₁] at this
      · have := hx _ h₁; simp [← h₂] at this
      · exact ih h₁ h₂
  exact irreflexive m.entries m.sorted hv hw

/-- A lookup answers what the entries hold. -/
theorem get?_eq_some_iff (m : Index α) {key : Nat} {value : α} :
    m.get? key = some value ↔ (key, value) ∈ m.entries := by
  unfold get?
  constructor
  · intro h
    obtain ⟨e, he, rfl⟩ := Option.map_eq_some_iff.1 h
    have hkey : e.1 = key := by simpa using List.find?_some he
    have hmem := List.mem_of_find?_eq_some he
    rw [← hkey]
    exact hmem
  · intro h
    cases hf : m.entries.find? (fun e => e.1 == key) with
    | none => exact absurd (List.find?_eq_none.1 hf _ h) (by simp)
    | some e =>
      have hkey : e.1 = key := by simpa using List.find?_some hf
      have hmem : (key, e.2) ∈ m.entries := hkey ▸ List.mem_of_find?_eq_some hf
      simp [m.value_unique hmem h]

theorem mem_entries_insert (m : Index α) {key : Nat} {value : α} {e : Nat × α} :
    e ∈ (m.insert key value).entries ↔ e = (key, value) ∨ (e ∈ m.entries ∧ e.1 ≠ key) := by
  simp only [insert, List.mem_append, List.mem_cons, List.mem_filter, decide_eq_true_eq]
  constructor
  · rintro (⟨h, hlt⟩ | h | ⟨h, hlt⟩)
    · exact .inr ⟨h, by omega⟩
    · exact .inl h
    · exact .inr ⟨h, by omega⟩
  · rintro (h | ⟨h, hne⟩)
    · exact .inr (.inl h)
    · rcases Nat.lt_or_gt_of_ne hne with hlt | hgt
      · exact .inl ⟨h, hlt⟩
      · exact .inr (.inr ⟨h, hgt⟩)

theorem mem_entries_erase (m : Index α) {key : Nat} {e : Nat × α} :
    e ∈ (m.erase key).entries ↔ e ∈ m.entries ∧ e.1 ≠ key := by
  simp [erase, List.mem_filter]

/-- An insertion is seen under its own key alone. -/
theorem get?_insert (m : Index α) (key other : Nat) (value : α) :
    (m.insert key value).get? other = if other = key then some value else m.get? other := by
  refine Option.ext fun v => ?_
  rw [get?_eq_some_iff, mem_entries_insert]
  split
  · next h => subst h; simp [eq_comm]
  · next h => simp [h, get?_eq_some_iff]

/-- An erasure is seen under its own key alone. -/
theorem get?_erase (m : Index α) (key other : Nat) :
    (m.erase key).get? other = if other = key then none else m.get? other := by
  refine Option.ext fun v => ?_
  rw [get?_eq_some_iff, mem_entries_erase]
  split
  · next h => simp [h]
  · next h => simp [h, get?_eq_some_iff]

end Index

end SpillStorage
