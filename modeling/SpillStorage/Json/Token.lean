import SpillStorage.Text.Digit
import SpillStorage.Value

/-!
The tokens of a JSON text. The text is read character by character; a mode remembers the token
that is being read. Numbers and words are both runs of bare characters; what a run means is
decided later.
-/

namespace SpillStorage.Json

inductive Token where
  | openList
  | closeList
  | openTable
  | closeTable
  | comma
  | colon
  | text (fragments : List Fragment)
  /-- A run of letters, digits, signs and points. -/
  | bare (chars : List Char)
  deriving DecidableEq, Repr

/-- What is being read; characters and fragments gathered so far stand in reverse. -/
inductive Mode where
  | between
  | bare (gathered : List Char)
  | text (gathered : List Fragment)
  /-- After a backslash. -/
  | escape (gathered : List Fragment)
  /-- In a numeric escape, with that many digits to come. -/
  | code (gathered : List Fragment) (missing : Nat) (value : Nat)

def isBlank (c : Char) : Bool := c == ' ' || c == '\t' || c == '\n' || c == '\r'

def isBare (c : Char) : Bool := c.isAlphanum || c == '+' || c == '-' || c == '.'

/-- The character that a short escape stands for. -/
def shortEscape? : Char → Option Char
  | '"' => some '"'
  | '\\' => some '\\'
  | '/' => some '/'
  | 'b' => some '\x08'
  | 'f' => some '\x0c'
  | 'n' => some '\n'
  | 'r' => some '\r'
  | 't' => some '\t'
  | _ => none

/-- A token of one character. -/
def punctuation? : Char → Option Token
  | '[' => some .openList
  | ']' => some .closeList
  | '\x7b' => some .openTable
  | '\x7d' => some .closeTable
  | ',' => some .comma
  | ':' => some .colon
  | _ => none

/-- Reads a character outside any token: the tokens that it completes, and the mode after it. -/
def begin? (c : Char) : Option (List Token × Mode) :=
  if isBlank c then some ([], .between)
  else if c == '"' then some ([], .text [])
  else if isBare c then some ([], .bare [c])
  else (punctuation? c).map fun token => ([token], .between)

/-- Reads a character: the tokens that it completes, and the mode after it. -/
def step? : Mode → Char → Option (List Token × Mode)
  | .between, c => begin? c
  | .bare gathered, c =>
    if isBare c then some ([], .bare (c :: gathered))
    else (begin? c).map fun (tokens, mode) => (.bare gathered.reverse :: tokens, mode)
  | .text gathered, c =>
    if c == '"' then some ([.text gathered.reverse], .between)
    else if c == '\\' then some ([], .escape gathered)
    else if c.toNat < 0x20 then none
    else some ([], .text (.char c :: gathered))
  | .escape gathered, c =>
    if c == 'u' then some ([], .code gathered 4 0)
    else (shortEscape? c).map fun c => ([], .text (.char c :: gathered))
  | .code gathered missing value, c =>
    (Text.hexValue? c).map fun digit =>
      let value := value * 16 + digit
      if missing ≤ 1 then ([], .text (.code value :: gathered))
      else ([], .code gathered (missing - 1) value)

/-- The tokens of a text that starts in a mode. -/
def tokensFrom : Mode → List Char → Option (List Token)
  | .between, [] => some []
  | .bare gathered, [] => some [.bare gathered.reverse]
  | _, [] => none
  | mode, c :: rest => do
    let (tokens, mode) ← step? mode c
    let others ← tokensFrom mode rest
    return tokens ++ others

/-- The tokens of a text. -/
def tokens? (text : String) : Option (List Token) := tokensFrom .between text.toList

end SpillStorage.Json
