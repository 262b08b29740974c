import SpillStorage.Binary64
import SpillStorage.Offset
import SpillStorage.Text.Digit

/-!
A numeral is a number as written: sign, whole digits, fraction, exponent. What it stands for is
asked separately, as an offset or as a binary number, and may be nothing: an offset has no sign,
fraction or exponent and is below `2 ^ 64`, a binary number is finite.

The binary number is reached the quick way. The digits are gathered while they fit in 64 bits;
whole digits past that only count as powers of ten, fractional ones are dropped; then the gathered
number is multiplied or divided by the power of ten that is left, each of the three rounded.
-/

namespace SpillStorage

/-- A number as written. -/
structure Numeral where
  negative : Bool
  whole : List Char
  fraction : List Char
  /-- The exponent: whether it is negative, and its digits. -/
  exponent : Option (Bool × List Char)
  deriving DecidableEq, Repr

namespace Numeral

def ofNat (n : Nat) : Numeral := ⟨false, Nat.toDigits 10 n, [], none⟩

/-- The numeral has a sign, whole digits and nothing else. -/
def isWhole (n : Numeral) : Bool := n.fraction.isEmpty && n.exponent.isNone

/-- The offset that the numeral writes. -/
def offset? (n : Numeral) : Option Nat :=
  if n.isWhole && !n.negative && decide (Text.decimalValue n.whole < Offset.bound) then
    some (Text.decimalValue n.whole)
  else none

/-! ## Binary numbers -/

/-- The greatest power of ten that is itself a binary number. -/
def greatestPower : Nat := 308

def powerOfTen (k : Nat) : Binary64 := Binary64.ofNat (Nat.pow 10 k)

/-- Gathers digits into a number below `2 ^ 64`, and answers it with the digits left over. -/
def gather : Nat → List Char → Nat × List Char
  | n, [] => (n, [])
  | n, c :: rest =>
    match Offset.sum? (10 * n) (Text.digitValue c) with
    | some m => gather m rest
    | none => (n, c :: rest)

/-- The number divided by a power of ten, in steps of at most the greatest one. -/
def divideByPower (x : Binary64) (k : Nat) : Binary64 :=
  if k ≤ greatestPower then (x.over? (powerOfTen k)).getD .zero
  else if x.significand = 0 then x
  else divideByPower ((x.over? (powerOfTen greatestPower)).getD .zero) (k - greatestPower)
termination_by k
decreasing_by
  have : greatestPower = 308 := rfl
  omega

/-- The significand times a power of ten, unless that is infinite. -/
def scaled? (significand : Nat) (exponent : Int) : Option Binary64 :=
  let x := Binary64.ofNat significand
  if exponent < 0 then some (divideByPower x (-exponent).toNat)
  else if exponent.toNat ≤ greatestPower then x.times? (powerOfTen exponent.toNat)
  else if significand = 0 then some .zero
  else none

/-- The value of the exponent as written. -/
def exponentValue (n : Numeral) : Int :=
  match n.exponent with
  | none => 0
  | some (negative, digits) =>
    if negative then -(Text.decimalValue digits : Int) else (Text.decimalValue digits : Int)

/-- The binary number that the numeral writes, unless that is infinite. -/
def real? (n : Numeral) : Option Binary64 :=
  let (whole, surplus) := gather 0 n.whole
  let (significand, dropped) := gather whole n.fraction
  let exponent : Int :=
    (surplus.length : Int) - ((n.fraction.length - dropped.length : Nat) : Int) + n.exponentValue
  (scaled? significand exponent).map fun x => { x with negative := n.negative }

end Numeral

end SpillStorage
