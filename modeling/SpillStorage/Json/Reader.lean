import SpillStorage.Json.Token

/-!
JSON values from tokens. Every text has at most one value, and only blanks may stand around it.
-/

namespace SpillStorage.Json

/-- Splits off the digits at the front; there has to be one. -/
def digits? (chars : List Char) : Option (List Char × List Char) :=
  match chars.takeWhile Char.isDigit with
  | [] => none
  | digits => some (digits, chars.dropWhile Char.isDigit)

/-- Splits off the fraction at the front, if there is one. -/
def fraction? : List Char → Option (List Char × List Char)
  | '.' :: rest => digits? rest
  | rest => some ([], rest)

/-- The exponent that the characters are; no characters are no exponent. -/
def exponent? : List Char → Option (Option (Bool × List Char))
  | [] => some none
  | e :: rest =>
    if e == 'e' || e == 'E' then
      let (negative, rest) :=
        match rest with
        | '-' :: rest => (true, rest)
        | '+' :: rest => (false, rest)
        | rest => (false, rest)
      match digits? rest with
      | some (digits, []) => some (some (negative, digits))
      | _ => none
    else none

/-- The numeral that the characters are: a sign, digits without needless zeros, fraction,
exponent. -/
def numeral? (chars : List Char) : Option Numeral := do
  let (negative, chars) :=
    match chars with
    | '-' :: rest => (true, rest)
    | rest => (false, rest)
  let (whole, chars) ← digits? chars
  if whole.head? == some '0' && decide (1 < whole.length) then none
  let (fraction, chars) ← fraction? chars
  let exponent ← exponent? chars
  return ⟨negative, whole, fraction, exponent⟩

/-- The value of a run of bare characters. -/
def bareValue? (chars : List Char) : Option Value :=
  if chars = "null".toList then some .null
  else if chars = "true".toList then some (.bool true)
  else if chars = "false".toList then some (.bool false)
  else (numeral? chars).map .number

mutual

/-- The value at the front of the tokens, and the tokens after it. -/
def readValue : Nat → List Token → Option (Value × List Token)
  | 0, _ => none
  | _ + 1, .bare chars :: rest => (bareValue? chars).map fun v => (v, rest)
  | _ + 1, .text fragments :: rest => some (.text fragments, rest)
  | _ + 1, .openList :: .closeList :: rest => some (.list [], rest)
  | fuel + 1, .openList :: rest =>
    (readItems fuel rest).map fun (items, rest) => (.list items, rest)
  | _ + 1, .openTable :: .closeTable :: rest => some (.table [], rest)
  | fuel + 1, .openTable :: rest =>
    (readFields fuel rest).map fun (fields, rest) => (.table fields, rest)
  | _ + 1, _ => none

/-- The items of a list up to its end. -/
def readItems : Nat → List Token → Option (List Value × List Token)
  | 0, _ => none
  | fuel + 1, tokens =>
    match readValue fuel tokens with
    | some (v, .comma :: rest) =>
      (readItems fuel rest).map fun (items, rest) => (v :: items, rest)
    | some (v, .closeList :: rest) => some ([v], rest)
    | _ => none

/-- The fields of a table up to its end. -/
def readFields : Nat → List Token → Option (List (List Fragment × Value) × List Token)
  | 0, _ => none
  | fuel + 1, .text key :: .colon :: rest =>
    match readValue fuel rest with
    | some (v, .comma :: rest) =>
      (readFields fuel rest).map fun (fields, rest) => ((key, v) :: fields, rest)
    | some (v, .closeTable :: rest) => some ([(key, v)], rest)
    | _ => none
  | _ + 1, _ => none

end

/-- The value that tokens write. No value nests deeper than it has tokens. -/
def valueOf? (tokens : List Token) : Option Value :=
  match readValue (2 * tokens.length + 1) tokens with
  | some (v, []) => some v
  | _ => none

/-- The value that a text writes. -/
def parse? (text : String) : Option Value := (tokens? text).bind valueOf?

end SpillStorage.Json
