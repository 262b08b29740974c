import SpillStorage.Text.Digit
import SpillStorage.Value

/-!
The compact JSON text of a value: no blanks, and in strings escapes only for quotes, backslashes and
controls.
-/

namespace SpillStorage.Json

/-- A numeric escape. -/
def codeEscape (unit : Nat) : List Char :=
  '\\' :: 'u' :: [unit / 4096 % 16, unit / 256 % 16, unit / 16 % 16, unit % 16].map
    (Text.hexDigit false)

/-- How a piece of a string is spelt. -/
def fragmentText : Fragment → List Char
  | .code unit => codeEscape unit
  | .char c =>
    if c == '"' then ['\\', '"']
    else if c == '\\' then ['\\', '\\']
    else if c == '\x08' then ['\\', 'b']
    else if c == '\x0c' then ['\\', 'f']
    else if c == '\n' then ['\\', 'n']
    else if c == '\r' then ['\\', 'r']
    else if c == '\t' then ['\\', 't']
    else if c.toNat < 0x20 then codeEscape c.toNat
    else [c]

/-- A string between its quotes. -/
def stringText (fragments : List Fragment) : List Char :=
  '"' :: fragments.flatMap fragmentText ++ ['"']

def numeralText (n : Numeral) : List Char :=
  (if n.negative then ['-'] else []) ++ n.whole ++
    (if n.fraction.isEmpty then [] else '.' :: n.fraction) ++
    match n.exponent with
    | none => []
    | some (negative, digits) => 'e' :: ((if negative then ['-'] else []) ++ digits)

mutual

/-- The text of a value. -/
def valueText : Value → List Char
  | .null => "null".toList
  | .bool true => "true".toList
  | .bool false => "false".toList
  | .number n => numeralText n
  | .text fragments => stringText fragments
  | .list items => '[' :: itemsText items ++ [']']
  | .table fields => '\x7b' :: fieldsText fields ++ ['\x7d']
  | .other => "null".toList

/-- The texts of the items with commas between them. -/
def itemsText : List Value → List Char
  | [] => []
  | [v] => valueText v
  | v :: rest => valueText v ++ ',' :: itemsText rest

/-- The texts of the fields with commas between them. -/
def fieldsText : List (List Fragment × Value) → List Char
  | [] => []
  | [(key, v)] => stringText key ++ ':' :: valueText v
  | (key, v) :: rest => stringText key ++ ':' :: valueText v ++ ',' :: fieldsText rest

end

/-- The text of a value. -/
def render (v : Value) : String := String.ofList (valueText v)

end SpillStorage.Json
