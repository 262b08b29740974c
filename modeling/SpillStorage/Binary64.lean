/-!
Finite numbers of the 64-bit binary format, as a sign, a significand and a power of two, with
rounding to nearest, ties to the even significand. All of it is arithmetic on natural numbers: a
quotient is scaled so that its integer part has 53 digits (fewer below the least normal number),
rounded there, and carried into the next power when the digits run over.
-/

namespace SpillStorage

/-- The number `(-1) ^ negative * significand * 2 ^ exponent`. The significand is below `2 ^ 53`;
it is at least `2 ^ 52` unless the exponent is the least one, `-1074`. -/
structure Binary64 where
  negative : Bool
  significand : Nat
  exponent : Int
  deriving DecidableEq, Repr

namespace Binary64

def leastExponent : Int := -1074

def greatestExponent : Int := 971

def zero : Binary64 := ⟨false, 0, leastExponent⟩

/-- The quotient rounded to the nearest integer, a half to the even one. -/
def roundedQuotient (num den : Nat) : Nat :=
  let q := num / den
  let twice := 2 * (num % den)
  if den < twice ∨ (twice = den ∧ q % 2 = 1) then q + 1 else q

/-- The exponent of the greatest power of two at or below `num / den`, both positive. -/
def logQuotient (num den : Nat) : Int :=
  let estimate : Int := (Nat.log2 num : Int) - (Nat.log2 den : Int)
  let below : Bool :=
    if 0 ≤ estimate then decide (num < den * Nat.pow 2 estimate.toNat)
    else decide (num * Nat.pow 2 (-estimate).toNat < den)
  if below then estimate - 1 else estimate

/-- `num / den / 2 ^ exponent`, rounded. -/
def scaledQuotient (num den : Nat) (exponent : Int) : Nat :=
  if 0 ≤ exponent then roundedQuotient num (den * Nat.pow 2 exponent.toNat)
  else roundedQuotient (num * Nat.pow 2 (-exponent).toNat) den

/-- The number nearest to `num / den`, for a positive `den`, unless that is infinite. -/
def ofRatio? (negative : Bool) (num den : Nat) : Option Binary64 :=
  if num = 0 then some ⟨negative, 0, leastExponent⟩
  else
    let exponent := max (logQuotient num den - 52) leastExponent
    let significand := scaledQuotient num den exponent
    let rounded : Binary64 :=
      if significand = Nat.pow 2 53 then ⟨negative, Nat.pow 2 52, exponent + 1⟩
      else ⟨negative, significand, exponent⟩
    if greatestExponent < rounded.exponent then none else some rounded

/-- The number nearest to `num / den`, 0 where that is infinite or undefined. -/
def ofRatio (num den : Nat) : Binary64 := (ofRatio? false num den).getD zero

def ofNat (n : Nat) : Binary64 := ofRatio n 1

/-- The magnitude as a quotient: numerator and denominator. -/
def ratio (x : Binary64) : Nat × Nat :=
  if 0 ≤ x.exponent then (x.significand * Nat.pow 2 x.exponent.toNat, 1)
  else (x.significand, Nat.pow 2 (-x.exponent).toNat)

/-- The rounded product with the sign of `x`, for a positive `y`. -/
def times? (x y : Binary64) : Option Binary64 :=
  ofRatio? x.negative (x.ratio.1 * y.ratio.1) (x.ratio.2 * y.ratio.2)

/-- The rounded quotient with the sign of `x`, for a positive `y`. -/
def over? (x y : Binary64) : Option Binary64 :=
  ofRatio? x.negative (x.ratio.1 * y.ratio.2) (x.ratio.2 * y.ratio.1)

/-- One minus a number between 0 and 1, rounded. -/
def complement (x : Binary64) : Binary64 :=
  ofRatio (x.ratio.2 - x.ratio.1) x.ratio.2

/-- The 64 bits of the number: sign, biased exponent, fraction. -/
def bits (x : Binary64) : Nat :=
  (if x.negative then Nat.pow 2 63 else 0) +
    if x.significand < Nat.pow 2 52 then x.significand
    else (x.exponent + 1075).toNat * Nat.pow 2 52 + (x.significand - Nat.pow 2 52)

end Binary64

end SpillStorage
