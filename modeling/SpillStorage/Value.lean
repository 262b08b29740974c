import SpillStorage.Value.Numeral

/-!
Values of a structured text: what a reader of the text answers, before anything is expected of it.
Strings and keys are kept as written, with their numeric escapes, because an escape may stand for
half a character; `Fragment.decode?` puts halves together and refuses a half alone. `fields?`
reads the fields of a record, from a table by name or from a list by place.
-/

namespace SpillStorage

/-- A piece of a string as written. -/
inductive Fragment where
  | char (c : Char)
  /-- A numeric escape: a 16-bit unit. -/
  | code (unit : Nat)
  deriving DecidableEq, Repr

namespace Fragment

def ofString (s : String) : List Fragment := s.toList.map .char

def isHighHalf (unit : Nat) : Bool := decide (0xD800 ≤ unit) && decide (unit < 0xDC00)

def isLowHalf (unit : Nat) : Bool := decide (0xDC00 ≤ unit) && decide (unit < 0xE000)

/-- The character that two halves make. -/
def joinHalves (high low : Nat) : Char :=
  Char.ofNat (0x10000 + (high - 0xD800) * 0x400 + (low - 0xDC00))

/-- The characters of a string as written, unless it holds half a character. -/
def decode? : List Fragment → Option (List Char)
  | [] => some []
  | .char c :: rest => (decode? rest).map (c :: ·)
  | .code unit :: .code low :: rest =>
    if isHighHalf unit then
      if isLowHalf low then (decode? rest).map (joinHalves unit low :: ·) else none
    else if isLowHalf unit then none
    else (decode? (.code low :: rest)).map (Char.ofNat unit :: ·)
  | .code unit :: rest =>
    if isHighHalf unit || isLowHalf unit then none
    else (decode? rest).map (Char.ofNat unit :: ·)

/-- The text of a string as written. -/
def text? (fragments : List Fragment) : Option String := (decode? fragments).map String.ofList

end Fragment

inductive Value where
  | null
  | bool (b : Bool)
  | number (n : Numeral)
  | text (fragments : List Fragment)
  | list (items : List Value)
  | table (fields : List (List Fragment × Value))
  /-- A value of a kind that nothing here reads, such as a date. -/
  | other

namespace Value

def ofNat (n : Nat) : Value := .number (.ofNat n)

def ofString (s : String) : Value := .text (Fragment.ofString s)

/-- The offset that the value writes. -/
def offset? : Value → Option Nat
  | .number n => n.offset?
  | _ => none

/-- The binary number that the value writes. -/
def real? : Value → Option Binary64
  | .number n => n.real?
  | _ => none

def string? : Value → Option String
  | .text fragments => Fragment.text? fragments
  | _ => none

def items? : Value → Option (List Value)
  | .list items => some items
  | _ => none

/-- A value that may be null, read by `f` if it is not. -/
def optional? (f : Value → Option α) : Value → Option (Option α)
  | .null => some none
  | v => (f v).map some

/-- The fields with the text of their names, if every name is a text. -/
def named? : List (List Fragment × Value) → Option (List (String × Value))
  | [] => some []
  | (key, value) :: rest => do
    let name ← Fragment.text? key
    let others ← named? rest
    return (name, value) :: others

/-- The values given for a name. -/
def givenFor (fields : List (String × Value)) (name : String) : List Value :=
  (fields.filter fun field => field.1 == name).map (·.2)

/-- The fields of a record by their names, `none` where one is missing. In a table other fields
are passed over and a name given twice is refused. A list gives the fields in order; one that is
too long is refused unless `surplus` allows it. -/
def fields? (names : List String) (surplus : Bool) : Value → Option (List (Option Value))
  | .table fields => do
    let named ← named? fields
    if names.any fun name => decide (1 < (givenFor named name).length) then none
    else some (names.map fun name => (givenFor named name).head?)
  | .list items =>
    if surplus || decide (items.length ≤ names.length) then
      some ((List.range names.length).map fun i => items[i]?)
    else none
  | _ => none

end Value

end SpillStorage
