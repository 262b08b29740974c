import Mathlib.Order.Bounds.Basic
import SpillStorage.Offset

/-!
Sums of sizes, sizes rounded up, and sums, products and differences that are checked.
-/

namespace SpillStorage.Offset

/-- The difference of two offsets, if it is an offset. -/
def difference? (a b : Nat) : Option Nat :=
  if b ≤ a then some (a - b) else none

theorem sum?_of_lt {a b : Nat} (h : a + b < bound) : sum? a b = some (a + b) :=
  sum?_eq_some_iff.2 ⟨rfl, h⟩

theorem product?_of_lt {a b : Nat} (h : a * b < bound) : product? a b = some (a * b) :=
  if_pos h

theorem difference?_of_le {a b : Nat} (h : b ≤ a) : difference? a b = some (a - b) :=
  if_pos h

/-- The lengths of lists make up the length of all in a row. -/
theorem total_length {α : Type} (lists : List (List α)) :
    total (lists.map List.length) = lists.flatten.length := by
  induction lists with
  | nil => rfl
  | cons l rest ih => rw [List.map_cons, total, ih, List.flatten_cons, List.length_append]

/-- The order of the sizes does not matter to their sum. -/
theorem total_perm {xs ys : List Nat} (h : xs.Perm ys) : total xs = total ys := by
  induction h with
  | nil => rfl
  | cons x _ ih => rw [total, total, ih]
  | swap x y l => simp only [total]; omega
  | trans _ _ ih₁ ih₂ => rw [ih₁, ih₂]

/-- What has a property and what has not make up the whole. -/
theorem total_filter {α : Type} (size : α → Nat) (p : α → Bool) (xs : List α) :
    total (xs.map size) =
      total ((xs.filter p).map size) + total ((xs.filter fun x => !p x).map size) := by
  rw [← total_append, ← List.map_append]
  exact total_perm ((List.filter_append_perm p xs).symm.map size)

theorem alignUp?_dvd {value granularity size : Nat} (hpos : 0 < granularity)
    (h : alignUp? value granularity = some size) : granularity ∣ size := by
  unfold alignUp? at h
  by_cases hone : granularity ≤ 1
  · have : granularity = 1 := by omega
    rw [this]
    exact Nat.one_dvd _
  · rw [if_neg hone] at h
    by_cases hmod : value % granularity = 0
    · rw [if_pos hmod] at h
      cases h
      exact Nat.dvd_of_mod_eq_zero hmod
    · rw [if_neg hmod] at h
      obtain ⟨rfl, -⟩ := sum?_eq_some_iff.1 h
      have hlt := Nat.mod_lt value hpos
      have hvalue := Nat.div_add_mod value granularity
      refine ⟨value / granularity + 1, ?_⟩
      rw [Nat.mul_add, Nat.mul_one]
      omega

theorem alignUp?_le {value granularity size : Nat} (h : alignUp? value granularity = some size) :
    value ≤ size := by
  unfold alignUp? at h
  split at h
  · cases h
    exact Nat.le_refl _
  · split at h
    · cases h
      exact Nat.le_refl _
    · obtain ⟨rfl, -⟩ := sum?_eq_some_iff.1 h
      exact Nat.le_add_right _ _

/-- Less than the granularity is added. -/
theorem alignUp?_lt {value granularity size : Nat} (hpos : 0 < granularity)
    (h : alignUp? value granularity = some size) : size < value + granularity := by
  unfold alignUp? at h
  split at h
  · cases h
    exact Nat.lt_add_of_pos_right hpos
  · split at h
    · cases h
      exact Nat.lt_add_of_pos_right hpos
    · obtain ⟨rfl, -⟩ := sum?_eq_some_iff.1 h
      have := Nat.mod_lt value hpos
      omega

/-- What comes out is the least multiple that is not below the value. -/
theorem alignUp?_isLeast {value granularity size : Nat} (hpos : 0 < granularity)
    (h : alignUp? value granularity = some size) :
    IsLeast {m | granularity ∣ m ∧ value ≤ m} size := by
  have hdvd := alignUp?_dvd hpos h
  have hlt := alignUp?_lt hpos h
  refine ⟨⟨hdvd, alignUp?_le h⟩, ?_⟩
  rintro m ⟨hm, hvalue⟩
  by_contra hless
  -- two multiples are at least a granularity apart
  have := Nat.le_of_dvd (by omega) (Nat.dvd_sub hdvd hm)
  omega

end SpillStorage.Offset
