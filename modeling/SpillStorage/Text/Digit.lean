/-!
Digits and the numbers that they write. `hexValue?` reads what `hexDigit` writes, in either case;
the number that decimal digits write is `decimalValue`, whatever stands among them is taken for a
digit.
-/

namespace SpillStorage.Text

/-- The hexadecimal digit of a number below 16. -/
def hexDigit (upper : Bool) (n : Nat) : Char :=
  if n < 10 then Char.ofNat (48 + n) else Char.ofNat ((if upper then 55 else 87) + n)

/-- The value of a hexadecimal digit. -/
def hexValue? (c : Char) : Option Nat :=
  if c.isDigit then some (c.toNat - 48)
  else if decide ('a' ≤ c) && decide (c ≤ 'f') then some (c.toNat - 87)
  else if decide ('A' ≤ c) && decide (c ≤ 'F') then some (c.toNat - 55)
  else none

/-- The value of a decimal digit. -/
def digitValue (c : Char) : Nat := c.toNat - 48

/-- The number that decimal digits write. -/
def decimalValue (digits : List Char) : Nat :=
  digits.foldl (fun n c => 10 * n + digitValue c) 0

/-- A digit reads back as the number that it was made for. -/
theorem hexValue?_hexDigit (upper : Bool) {n : Nat} (h : n < 16) :
    hexValue? (hexDigit upper n) = some n := by
  have all_read : ∀ m ∈ List.range 16, hexValue? (hexDigit upper m) = some m := by
    cases upper <;> decide
  exact all_read n (List.mem_range.2 h)

end SpillStorage.Text
