/-!
Offsets and sizes are natural numbers below `2 ^ 64`. `sum?` and `product?` refuse to leave that
range. They stand where the program checks a sum or a product; where it adds without a check, the
sum is that of natural numbers, and the modules called `Checked` tell when it is an offset.
`alignUp?` rounds to a granularity: its value is the least multiple at or above the argument.

Correspondence:
  `align_up` ↔ `alignUp?`
-/

namespace SpillStorage.Offset

/-- The first number that is no offset. -/
def bound : Nat := Nat.pow 2 64

/-- The greatest offset. -/
def greatest : Nat := bound - 1

/-- The sum of two offsets, if it is an offset. -/
def sum? (a b : Nat) : Option Nat :=
  if a + b < bound then some (a + b) else none

/-- The product of two offsets, if it is an offset. -/
def product? (a b : Nat) : Option Nat :=
  if a * b < bound then some (a * b) else none

/-- The sum of sizes that need not be an offset. -/
def total : List Nat → Nat
  | [] => 0
  | size :: rest => size + total rest

/-- The least multiple of `granularity` at or above `value`, if it is an offset.
Granularities 0 and 1 ask for exact sizes. -/
def alignUp? (value granularity : Nat) : Option Nat :=
  if granularity ≤ 1 then some value
  else if value % granularity = 0 then some value
  else sum? value (granularity - value % granularity)

theorem total_append (xs ys : List Nat) : total (xs ++ ys) = total xs + total ys := by
  induction xs with
  | nil => rw [List.nil_append, total, Nat.zero_add]
  | cons x rest ih => rw [List.cons_append, total, total, ih, Nat.add_assoc]

theorem sum?_eq_some_iff {a b c : Nat} : sum? a b = some c ↔ a + b = c ∧ c < bound := by
  unfold sum?
  split <;> simp <;> omega

theorem sum?_eq_none_iff {a b : Nat} : sum? a b = none ↔ bound ≤ a + b := by
  unfold sum?
  split <;> simp <;> omega

end SpillStorage.Offset
