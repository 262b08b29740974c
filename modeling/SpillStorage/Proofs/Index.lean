import Mathlib.Data.List.Sort
import SpillStorage.Index

/-!
The neighbours of a key in an index, and when two indexes are one.

What is proved:
  1. `lastBefore_some`, `lastUpTo_some` and `firstFrom_some`: the entry that a neighbour query
     answers is on its side of the key, and no entry on that side is nearer; the `_none` forms say
     that an empty answer leaves no entry on that side. `lastKey?_some` says so of the last key.
  2. `ext_get?`: an index is its lookups. Hence `erase_insert_of_get?_none`: erasing what was
     inserted under a new key gives back the index itself, and an insertion and an erasure under
     different keys can change places.
-/

namespace SpillStorage.Index

variable {α : Type}

theorem get?_eq_none_iff (m : Index α) {key : Nat} :
    m.get? key = none ↔ ∀ e ∈ m.entries, e.1 ≠ key := by
  unfold get?
  rw [Option.map_eq_none_iff, List.find?_eq_none]
  simp

/-- Indexes with the same lookups are equal. -/
theorem ext_get? {m n : Index α} (h : ∀ key, m.get? key = n.get? key) : m = n := by
  have irreflexive : Std.Irrefl fun a b : Nat × α => a.1 < b.1 := ⟨fun a => Nat.lt_irrefl a.1⟩
  have entries : m.entries = n.entries := by
    apply List.Pairwise.eq_of_mem_iff m.sorted n.sorted
    intro e
    rw [← get?_eq_some_iff, ← get?_eq_some_iff, h]
  cases m
  cases n
  cases entries
  rfl

theorem erase_insert_of_get?_none {m : Index α} {key : Nat} (value : α) (h : m.get? key = none) :
    (m.insert key value).erase key = m := by
  apply ext_get?
  intro other
  rw [get?_erase, get?_insert]
  split
  · next same => rw [same, h]
  · rfl

theorem insert_erase_self (m : Index α) (key : Nat) (value : α) :
    (m.erase key).insert key value = m.insert key value := by
  apply ext_get?
  intro other
  rw [get?_insert, get?_insert, get?_erase]
  split <;> rfl

theorem insert_erase_comm (m : Index α) {key other : Nat} (value : α) (h : other ≠ key) :
    (m.erase key).insert other value = (m.insert other value).erase key := by
  apply ext_get?
  intro k
  rw [get?_insert, get?_erase, get?_erase, get?_insert]
  by_cases hk : k = other
  · rw [if_pos hk, if_pos hk, if_neg (hk ▸ h)]
  · rw [if_neg hk, if_neg hk]

/-! ## Neighbours -/

/-- The last entry that passes a test is one of the entries, and none that passes has a greater
key. -/
theorem getLast?_filter_some (m : Index α) {p : Nat × α → Bool} {e : Nat × α}
    (h : (m.entries.filter p).getLast? = some e) :
    e ∈ m.entries ∧ p e = true ∧ ∀ x ∈ m.entries, p x = true → x.1 ≤ e.1 := by
  obtain ⟨init, hinit⟩ := List.getLast?_eq_some_iff.1 h
  have he : e ∈ m.entries.filter p := by rw [hinit]; simp
  have hs : (init ++ [e]).Pairwise fun a b => a.1 < b.1 := hinit ▸ m.sorted.filter p
  obtain ⟨hmem, hp⟩ := List.mem_filter.1 he
  refine ⟨hmem, hp, ?_⟩
  intro x hx hpx
  have hx' : x ∈ init ++ [e] := hinit ▸ List.mem_filter.2 ⟨hx, hpx⟩
  rcases List.mem_append.1 hx' with hx' | hx'
  · exact Nat.le_of_lt ((List.pairwise_append.1 hs).2.2 x hx' e (by simp))
  · rw [List.mem_singleton.1 hx']

theorem lastBefore_some (m : Index α) {key : Nat} {e : Nat × α} (h : m.lastBefore key = some e) :
    e ∈ m.entries ∧ e.1 < key ∧ ∀ x ∈ m.entries, x.1 < key → x.1 ≤ e.1 := by
  simpa using m.getLast?_filter_some h

theorem lastBefore_none (m : Index α) {key : Nat} (h : m.lastBefore key = none) :
    ∀ x ∈ m.entries, key ≤ x.1 := by
  simpa [lastBefore] using h

theorem lastUpTo_some (m : Index α) {key : Nat} {e : Nat × α} (h : m.lastUpTo key = some e) :
    e ∈ m.entries ∧ e.1 ≤ key ∧ ∀ x ∈ m.entries, x.1 ≤ key → x.1 ≤ e.1 := by
  simpa using m.getLast?_filter_some h

theorem lastUpTo_none (m : Index α) {key : Nat} (h : m.lastUpTo key = none) :
    ∀ x ∈ m.entries, key < x.1 := by
  simpa [lastUpTo] using h

theorem firstFrom_some (m : Index α) {key : Nat} {e : Nat × α} (h : m.firstFrom key = some e) :
    e ∈ m.entries ∧ key ≤ e.1 ∧ ∀ x ∈ m.entries, key ≤ x.1 → e.1 ≤ x.1 := by
  obtain ⟨hkey, front, back, hsplit, hfront⟩ := List.find?_eq_some_iff_append.1 h
  have hs := m.sorted
  rw [hsplit] at hs
  refine ⟨by rw [hsplit]; simp, by simpa using hkey, ?_⟩
  intro x hx hle
  rw [hsplit] at hx
  rcases List.mem_append.1 hx with hx | hx
  · have := hfront x hx
    simp [hle] at this
  · rcases List.mem_cons.1 hx with rfl | hx
    · exact Nat.le_refl _
    · exact Nat.le_of_lt ((List.pairwise_cons.1 (List.pairwise_append.1 hs).2.1).1 x hx)

theorem firstFrom_none (m : Index α) {key : Nat} (h : m.firstFrom key = none) :
    ∀ x ∈ m.entries, x.1 < key := by
  simpa [firstFrom] using h

/-- The greatest key stands in an entry, and no entry has a greater one. -/
theorem lastKey?_some (m : Index α) {key : Nat} (h : m.lastKey? = some key) :
    (∃ value, (key, value) ∈ m.entries) ∧ ∀ e ∈ m.entries, e.1 ≤ key := by
  obtain ⟨⟨key', value⟩, hlast, rfl⟩ := Option.map_eq_some_iff.1 h
  have hall : m.entries.filter (fun _ => true) = m.entries := List.filter_true _
  rw [← hall] at hlast
  obtain ⟨hmem, -, hmax⟩ := m.getLast?_filter_some hlast
  exact ⟨⟨value, hmem⟩, fun e he => hmax e he rfl⟩

theorem lastKey?_none (m : Index α) (h : m.lastKey? = none) : m.entries = [] :=
  List.getLast?_eq_none_iff.1 (Option.map_eq_none_iff.1 h)

end SpillStorage.Index
