import SpillStorage.Toml.Text
import SpillStorage.Value

/-!
Numbers, dates and times of a TOML document. A whole number has to be a signed number of 64 bits.
Nothing in a document of settings is a fraction, a date or a time, so of those only the form is
checked, and that no fraction is too large for a binary number.
-/

namespace SpillStorage.Toml

/-- Digits of a base, single underscores between them. -/
def groupedDigits (isDigit : Char → Bool) : Reader (List Char)
  | '_' :: c :: rest =>
    if isDigit c then consChar c (groupedDigits isDigit rest) else none
  | c :: rest =>
    if isDigit c then consChar c (groupedDigits isDigit rest) else some ([], c :: rest)
  | [] => some ([], [])

/-- One digit at least. -/
def someDigits (isDigit : Char → Bool) : Reader (List Char)
  | c :: rest => if isDigit c then consChar c (groupedDigits isDigit rest) else none
  | [] => none

/-- A sign, if there is one: whether it is a minus. -/
def sign : List Char → Bool × List Char
  | '-' :: rest => (true, rest)
  | '+' :: rest => (false, rest)
  | chars => (false, chars)

/-- Decimal digits without needless zeros. -/
def wholeDigits : Reader (List Char)
  | '0' :: rest => some (['0'], rest)
  | chars => someDigits Char.isDigit chars

/-- The first number that is no signed number of 64 bits. -/
def signedBound : Nat := Nat.pow 2 63

/-- A whole number as a value, if it is a signed number of 64 bits. -/
def wholeValue? (negative : Bool) (n : Nat) : Option Value :=
  if n < signedBound then
    some (.number { Numeral.ofNat n with negative := negative && n != 0 })
  else if negative && n == signedBound then
    some (.number { Numeral.ofNat n with negative := true })
  else none

/-- The number that digits of a base write. -/
def baseValue (base : Nat) (digits : List Char) : Nat :=
  digits.foldl (fun n c => base * n + (Text.hexValue? c).getD 0) 0

/-- A whole number in a base, after the mark of the base. -/
def basedInteger (base : Nat) (chars : List Char) : Option (Value × List Char) := do
  let (digits, rest) ← someDigits (fun c => (Text.hexValue? c).any fun d => decide (d < base)) chars
  return (← wholeValue? false (baseValue base digits), rest)

def integer? : Reader Value
  | '0' :: 'x' :: rest => basedInteger 16 rest
  | '0' :: 'o' :: rest => basedInteger 8 rest
  | '0' :: 'b' :: rest => basedInteger 2 rest
  | chars => do
    let (negative, chars) := sign chars
    let (digits, rest) ← wholeDigits chars
    return (← wholeValue? negative (baseValue 10 digits), rest)

/-! ## Fractions -/

def fraction? : Reader (List Char)
  | '.' :: rest => someDigits Char.isDigit rest
  | _ => none

/-- An exponent: whether it is negative, and its digits. -/
def exponent? : Reader (Bool × List Char)
  | e :: rest =>
    if e == 'e' || e == 'E' then
      let (negative, rest) := sign rest
      (someDigits Char.isDigit rest).map fun (digits, rest) => ((negative, digits), rest)
    else none
  | [] => none

/-- A positive number `digits * 10 ^ exponent` that rounds to infinity in 64-bit binary. -/
def overflows (digits : Nat) (exponent : Int) : Bool :=
  let length : Int := (Nat.toDigits 10 digits).length
  if digits = 0 ∨ length + exponent < 300 then false
  else if 400 < length + exponent then true
  else
    let least := Nat.pow 2 1024 - Nat.pow 2 970
    if 0 ≤ exponent then decide (least ≤ digits * Nat.pow 10 exponent.toNat)
    else decide (least * Nat.pow 10 (-exponent).toNat ≤ digits)

/-- A number with a fraction or an exponent. -/
def decimal? (chars : List Char) : Option (Value × List Char) := do
  let (negative, chars) := sign chars
  let (whole, chars) ← wholeDigits chars
  let (fraction, afterFraction) := (fraction? chars).getD ([], chars)
  if chars.head? == some '.' && fraction.isEmpty then none
  let ((down, exponent), rest) := (exponent? afterFraction).getD ((false, []), afterFraction)
  if fraction.isEmpty && exponent.isEmpty then none
  let shift : Int := baseValue 10 exponent
  let scale := (if down then -shift else shift) - (fraction.length : Int)
  if !negative && overflows (baseValue 10 (whole ++ fraction)) scale then none
  return (.other, rest)

/-- The words for infinity and for no number. -/
def special? (chars : List Char) : Option (Value × List Char) :=
  match (sign chars).2 with
  | 'i' :: 'n' :: 'f' :: rest => some (.other, rest)
  | 'n' :: 'a' :: 'n' :: rest => some (.other, rest)
  | _ => none

/-! ## Dates and times -/

/-- A number of exactly `width` digits between two bounds. -/
def fixedNumber (width least greatest : Nat) (chars : List Char) : Option (Nat × List Char) :=
  let digits := chars.take width
  if digits.length = width ∧ digits.all Char.isDigit then
    let n := baseValue 10 digits
    if least ≤ n ∧ n ≤ greatest then some (n, chars.drop width) else none
  else none

/-- The rest after a character that has to be there. -/
def after? (c : Char) : List Char → Option (List Char)
  | d :: rest => if d = c then some rest else none
  | [] => none

def isLeapYear (year : Nat) : Bool :=
  year % 4 == 0 && (year % 100 != 0 || year % 400 == 0)

def daysInMonth (year month : Nat) : Nat :=
  if month = 2 then (if isLeapYear year then 29 else 28)
  else if month ∈ [4, 6, 9, 11] then 30
  else 31

/-- The rest after a date. -/
def afterDate? (chars : List Char) : Option (List Char) := do
  let (year, chars) ← fixedNumber 4 0 9999 chars
  let chars ← after? '-' chars
  let (month, chars) ← fixedNumber 2 1 12 chars
  let chars ← after? '-' chars
  let (_, rest) ← fixedNumber 2 1 (daysInMonth year month) chars
  return rest

/-- The rest after a time of day, of which the last minute may have 61 seconds. -/
def afterTime? (chars : List Char) : Option (List Char) := do
  let (_, chars) ← fixedNumber 2 0 23 chars
  let chars ← after? ':' chars
  let (_, chars) ← fixedNumber 2 0 59 chars
  let chars ← after? ':' chars
  let (_, chars) ← fixedNumber 2 0 60 chars
  match chars with
  | '.' :: rest =>
    if (rest.takeWhile Char.isDigit).isEmpty then return chars
    else return rest.dropWhile Char.isDigit
  | _ => return chars

/-- The rest after a zone, given as a letter or as hours and minutes. -/
def afterZone? : List Char → Option (List Char)
  | c :: rest =>
    if c == 'Z' || c == 'z' then some rest
    else if c == '+' || c == '-' then do
      let (_, chars) ← fixedNumber 2 0 23 rest
      let chars ← after? ':' chars
      let (_, chars) ← fixedNumber 2 0 59 chars
      return chars
    else none
  | [] => none

/-- The rest after the time of a date, with its zone, if there is one. -/
def afterDateTime (chars : List Char) : List Char :=
  match chars with
  | c :: rest =>
    if c == 'T' || c == 't' || c == ' ' then
      match afterTime? rest with
      | some rest => (afterZone? rest).getD rest
      | none => chars
    else chars
  | [] => chars

/-- A date, a date with a time, or a time. -/
def moment? (chars : List Char) : Option (Value × List Char) :=
  match afterDate? chars with
  | some rest => some (.other, afterDateTime rest)
  | none => (afterTime? chars).map fun rest => (.other, rest)

/-- A truth value. -/
def truth? : Reader Value
  | 't' :: 'r' :: 'u' :: 'e' :: rest => some (.bool true, rest)
  | 'f' :: 'a' :: 'l' :: 's' :: 'e' :: rest => some (.bool false, rest)
  | _ => none

/-- A value without parts. -/
def scalarValue? (chars : List Char) : Option (Value × List Char) :=
  match string? chars with
  | some (text, rest) => some (.text (text.map .char), rest)
  | none =>
    (moment? chars).or <| (decimal? chars).or <| (special? chars).or <|
      (integer? chars).or (truth? chars)

end SpillStorage.Toml
