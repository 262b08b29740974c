import SpillStorage.Text.Digit
import SpillStorage.Text.Unprintable

/-!
Quoted text: a byte string between double quotes, on one line and in visible characters only.
Quotes, backslashes and the common controls get a short escape, other characters without a visible
form their number in braces, and bytes that are not UTF-8 two hexadecimal digits each.
-/

namespace SpillStorage.Text

/-- A number in lower-case hexadecimal, without leading zeros. -/
def hexNumber (n : Nat) : String :=
  String.ofList (Nat.toDigits 16 n)

/-- A byte as two hexadecimal digits. -/
def hexByte (upper : Bool) (b : UInt8) : String :=
  String.ofList [hexDigit upper (b.toNat / 16), hexDigit upper (b.toNat % 16)]

/-- A stretch of a byte string: a character of UTF-8, or a byte that belongs to none. -/
inductive Scalar where
  | char (c : Char)
  | stray (b : UInt8)

/-- The byte string from `start` on, read as UTF-8 with stray bytes kept. -/
def scalarsFrom (bytes : ByteArray) (start : Nat) : List Scalar :=
  if h : start < bytes.size then
    match bytes.utf8DecodeChar? start with
    | some c => .char c :: scalarsFrom bytes (start + c.utf8Size)
    | none => .stray bytes[start] :: scalarsFrom bytes (start + 1)
  else []
termination_by bytes.size - start
decreasing_by
  · have := c.utf8Size_pos; omega
  · omega

/-- How one stretch is spelt between the quotes. -/
def Scalar.quoted : Scalar → String
  | .stray b => "\\x" ++ hexByte true b
  | .char c =>
    if c == '"' then "\\\""
    else if c == '\\' then "\\\\"
    else if c == '\t' then "\\t"
    else if c == '\n' then "\\n"
    else if c == '\r' then "\\r"
    else if c == '\x00' then "\\0"
    else if isUnprintable c then "\\u\x7b" ++ hexNumber c.toNat ++ "\x7d"
    else String.singleton c

/-- The byte string between double quotes. -/
def quoted (bytes : ByteArray) : String :=
  "\"" ++ String.join ((scalarsFrom bytes 0).map Scalar.quoted) ++ "\""

end SpillStorage.Text
