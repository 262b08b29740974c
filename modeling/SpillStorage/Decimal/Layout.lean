import SpillStorage.Decimal.Shortest
import SpillStorage.Value.Numeral

/-!
How a binary number is laid out in decimal: positionally while the point falls near the digits, else
with an exponent. The bounds are a value, so that a format states its own.
-/

namespace SpillStorage.Decimal

/-- A number whose point falls after `point` digits is written positionally if `point` lies between
these bounds. -/
structure Layout where
  leastPoint : Int
  greatestPoint : Int

/-- The digits with the point after the first `point` of them, and zeros where digits are missing.
-/
def positional (negative : Bool) (digits : List Char) (point : Int) : Numeral :=
  if (digits.length : Int) ≤ point then
    ⟨negative, digits ++ List.replicate (point.toNat - digits.length) '0', ['0'], none⟩
  else if 0 < point then
    ⟨negative, digits.take point.toNat, digits.drop point.toNat, none⟩
  else ⟨negative, ['0'], List.replicate (-point).toNat '0' ++ digits, none⟩

/-- The digits with the point after the first, and the exponent that the number then has. -/
def scientific (negative : Bool) (digits : List Char) (point : Int) : Numeral :=
  ⟨negative, digits.take 1, digits.drop 1,
    some (decide (point < 1), Nat.toDigits 10 (point - 1).natAbs)⟩

/-- The shortest numeral of a number in a layout. -/
def numeral (layout : Layout) (x : Binary64) : Numeral :=
  if x.significand = 0 then ⟨x.negative, ['0'], ['0'], none⟩
  else
    let s := shortest x
    let digits := Nat.toDigits 10 s.digits
    let point := (digits.length : Int) + s.exponent
    if layout.leastPoint ≤ point ∧ point ≤ layout.greatestPoint then
      positional x.negative digits point
    else scientific x.negative digits point

end SpillStorage.Decimal
