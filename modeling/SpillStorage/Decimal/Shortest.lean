import SpillStorage.Binary64

/-!
The shortest decimal of a binary number: the fewest digits that read back as the same number and,
of those, the nearest to it. Decimals that read back are those between the midpoints to the
neighbouring numbers, the midpoints themselves only for an even significand. On a decimal grid
only the two points next to the number need a test, because a point further away lies in the
interval only if they do.
-/

namespace SpillStorage.Decimal

/-- The decimal `digits * 10 ^ exponent`. -/
structure Scaled where
  digits : Nat
  exponent : Int
  deriving DecidableEq, Repr

/-- A positive quotient times a power of ten, as numerator and denominator. -/
def scaleRatio (num den : Nat) (exponent : Int) : Nat × Nat :=
  if 0 ≤ exponent then (num * Nat.pow 10 exponent.toNat, den)
  else (num, den * Nat.pow 10 (-exponent).toNat)

/-- The least exponent `k` with `num / den < 10 ^ k`, for a positive quotient. -/
def decimalLog (num den : Nat) : Int :=
  let estimate : Int := ((Nat.toDigits 10 num).length : Int) - ((Nat.toDigits 10 den).length : Int)
  let scaled := scaleRatio den num estimate
  if scaled.2 < scaled.1 then estimate else estimate + 1

/-- The interval of numbers that round to a positive binary number, and that number, all over one
denominator. -/
structure Interval where
  low : Nat
  middle : Nat
  high : Nat
  den : Nat
  /-- The ends belong to the interval. -/
  closed : Bool

/-- The rounding interval of a positive number. Below a power of two the numbers lie twice as
close. -/
def interval (x : Binary64) : Interval :=
  let below := if x.significand = Nat.pow 2 52 ∧ Binary64.leastExponent < x.exponent then 1 else 2
  let exponent := x.exponent - 2
  let scale := if 0 ≤ exponent then Nat.pow 2 exponent.toNat else 1
  { low := (4 * x.significand - below) * scale
    middle := 4 * x.significand * scale
    high := (4 * x.significand + 2) * scale
    den := if 0 ≤ exponent then 1 else Nat.pow 2 (-exponent).toNat
    closed := x.significand % 2 == 0 }

/-- The decimal `digits * 10 ^ exponent` lies in the interval. -/
def Interval.contains (i : Interval) (digits : Nat) (exponent : Int) : Bool :=
  let point := scaleRatio (digits * i.den) 1 exponent
  if i.closed then
    decide (i.low * point.2 ≤ point.1) && decide (point.1 ≤ i.high * point.2)
  else decide (i.low * point.2 < point.1) && decide (point.1 < i.high * point.2)

/-- The grid point nearest to the middle that lies in the interval, of the two next to the middle.
Of two at the same distance the even one is taken. -/
def Interval.nearest? (i : Interval) (exponent : Int) : Option Nat :=
  let (num, den) := scaleRatio i.middle i.den (-exponent)
  let floor := num / den
  let twice := 2 * (num % den)
  let lower := i.contains floor exponent
  let upper := i.contains (floor + 1) exponent
  if lower && (!upper || decide (twice < den) || (twice == den && floor % 2 == 0)) then some floor
  else if upper then some (floor + 1)
  else none

/-- The decimal without zeros at its end. -/
def trim : Nat → Scaled → Scaled
  | 0, s => s
  | fuel + 1, s =>
    if s.digits ≠ 0 ∧ s.digits % 10 = 0 then trim fuel ⟨s.digits / 10, s.exponent + 1⟩ else s

/-- The greatest number of digits that is ever needed. -/
def greatestDigits : Nat := 17

/-- The shortest decimal of the magnitude of a number. -/
def shortest (x : Binary64) : Scaled :=
  if x.significand = 0 then ⟨0, 0⟩
  else
    let i := interval x
    let k := decimalLog i.middle i.den
    let found := (List.range greatestDigits).findSome? fun n =>
      let exponent := k - (n + 1 : Nat)
      (i.nearest? exponent).map fun digits => (⟨digits, exponent⟩ : Scaled)
    trim (greatestDigits + 1) (found.getD ⟨0, 0⟩)

end SpillStorage.Decimal
