import SpillStorage.Text.Digit

/-!
The texts of a TOML document: blanks, line ends and comments, quoted strings of one line and of
many, and keys. A reader takes characters from the front and answers what it read with what is
left.
-/

namespace SpillStorage.Toml

/-- Reads from the front of a text. -/
abbrev Reader (α : Type) := List Char → Option (α × List Char)

def isBlank (c : Char) : Bool := c == ' ' || c == '\t'

/-- A character that may stand in a comment or between quotes as it is: not a control, except the
tab. -/
def isPlain (c : Char) : Bool := c == '\t' || (decide (0x20 ≤ c.toNat) && c.toNat != 0x7F)

def skipBlanks (chars : List Char) : List Char := chars.dropWhile isBlank

/-- The rest after a line end at the front. -/
def afterNewline? : List Char → Option (List Char)
  | '\n' :: rest => some rest
  | '\r' :: '\n' :: rest => some rest
  | _ => none

/-- The rest after a comment at the front, if there is one. -/
def skipComment : List Char → List Char
  | '#' :: rest => rest.dropWhile isPlain
  | chars => chars

/-- The next line, if only blanks and a comment are left on this one. -/
def endLine? (chars : List Char) : Option (List Char) :=
  match skipComment (skipBlanks chars) with
  | [] => some []
  | rest => afterNewline? rest

/-- Skips blanks, line ends and comments; a comment has to end with its line. -/
def skipLines : Bool → List Char → Option (List Char)
  | _, '\r' :: '\n' :: rest => skipLines false rest
  | _, '\n' :: rest => skipLines false rest
  | _, '\r' :: _ => none
  | true, c :: rest => if isPlain c then skipLines true rest else none
  | true, [] => none
  | false, '#' :: rest => skipLines true rest
  | false, c :: rest => if isBlank c then skipLines false rest else some (c :: rest)
  | false, [] => some []

/-! ## Strings -/

/-- The character whose number the hexadecimal digits write. -/
def scalar? (digits : List Char) : Option Char := do
  let values ← digits.mapM Text.hexValue?
  let n := values.foldl (fun n d => 16 * n + d) 0
  if n.isValidChar then some (Char.ofNat n) else none

/-- The character that a short escape stands for. -/
def shortEscape? : Char → Option Char
  | 'b' => some '\x08'
  | 't' => some '\t'
  | 'n' => some '\n'
  | 'f' => some '\x0c'
  | 'r' => some '\r'
  | '"' => some '"'
  | '\\' => some '\\'
  | _ => none

/-- A character in front of what is read after it. -/
def consChar (c : Char) (r : Option (List Char × List Char)) : Option (List Char × List Char) :=
  r.map fun (text, rest) => (c :: text, rest)

/-- The characters up to the closing quote. -/
def basicString : Reader (List Char)
  | '"' :: rest => some ([], rest)
  | '\\' :: 'u' :: a :: b :: c :: d :: rest =>
    (scalar? [a, b, c, d]).bind fun x => consChar x (basicString rest)
  | '\\' :: 'U' :: a :: b :: c :: d :: e :: f :: g :: h :: rest =>
    (scalar? [a, b, c, d, e, f, g, h]).bind fun x => consChar x (basicString rest)
  | '\\' :: c :: rest => (shortEscape? c).bind fun x => consChar x (basicString rest)
  | c :: rest => if isPlain c && c != '\\' then consChar c (basicString rest) else none
  | [] => none

/-- The characters up to the closing apostrophe. -/
def literalString : Reader (List Char)
  | '\x27' :: rest => some ([], rest)
  | c :: rest => if isPlain c then consChar c (literalString rest) else none
  | [] => none

/-- A backslash here swallows the line end: nothing but blanks stands before it. -/
def endsLine (chars : List Char) : Bool := (afterNewline? (skipBlanks chars)).isSome

/-- The characters up to three closing quotes, of which up to two more may stand in front. While
`swallowing`, blanks and line ends are passed over. -/
def longBasicString : Bool → Reader (List Char)
  | _, '"' :: '"' :: '"' :: '"' :: '"' :: rest => some (['"', '"'], rest)
  | _, '"' :: '"' :: '"' :: '"' :: rest => some (['"'], rest)
  | _, '"' :: '"' :: '"' :: rest => some ([], rest)
  | swallowing, '\r' :: '\n' :: rest =>
    if swallowing then longBasicString true rest
    else consChar '\n' (longBasicString false rest)
  | swallowing, '\n' :: rest =>
    if swallowing then longBasicString true rest
    else consChar '\n' (longBasicString false rest)
  | _, '\\' :: 'u' :: a :: b :: c :: d :: rest =>
    (scalar? [a, b, c, d]).bind fun x => consChar x (longBasicString false rest)
  | _, '\\' :: 'U' :: a :: b :: c :: d :: e :: f :: g :: h :: rest =>
    (scalar? [a, b, c, d, e, f, g, h]).bind fun x => consChar x (longBasicString false rest)
  | _, '\\' :: c :: rest =>
    if endsLine (c :: rest) then longBasicString true (c :: rest)
    else (shortEscape? c).bind fun x => consChar x (longBasicString false rest)
  | swallowing, c :: rest =>
    if swallowing && isBlank c then longBasicString true rest
    else if isPlain c && c != '\\' then consChar c (longBasicString false rest)
    else none
  | _, [] => none

/-- The characters up to three closing apostrophes, of which up to two more may stand in front. -/
def longLiteralString : Reader (List Char)
  | '\x27' :: '\x27' :: '\x27' :: '\x27' :: '\x27' :: rest => some (['\x27', '\x27'], rest)
  | '\x27' :: '\x27' :: '\x27' :: '\x27' :: rest => some (['\x27'], rest)
  | '\x27' :: '\x27' :: '\x27' :: rest => some ([], rest)
  | '\r' :: '\n' :: rest => consChar '\n' (longLiteralString rest)
  | '\n' :: rest => consChar '\n' (longLiteralString rest)
  | c :: rest => if isPlain c then consChar c (longLiteralString rest) else none
  | [] => none

/-- A line end directly after three opening quotes does not count. -/
def dropFirstNewline (chars : List Char) : List Char := (afterNewline? chars).getD chars

/-- A string of any kind. -/
def string? : Reader (List Char)
  | '"' :: '"' :: '"' :: rest => longBasicString false (dropFirstNewline rest)
  | '"' :: rest => basicString rest
  | '\x27' :: '\x27' :: '\x27' :: rest => longLiteralString (dropFirstNewline rest)
  | '\x27' :: rest => literalString rest
  | _ => none

/-! ## Keys -/

def isKeyChar (c : Char) : Bool := c.isAlphanum || c == '-' || c == '_'

/-- A key without dots. -/
def simpleKey? : Reader String
  | '"' :: rest => (basicString rest).map fun (key, rest) => (String.ofList key, rest)
  | '\x27' :: rest => (literalString rest).map fun (key, rest) => (String.ofList key, rest)
  | chars =>
    match chars.takeWhile isKeyChar with
    | [] => none
    | key => some (String.ofList key, chars.dropWhile isKeyChar)

/-- A key and, after dots, further ones. -/
def keys? : Nat → Reader (List String)
  | 0, _ => none
  | fuel + 1, chars => do
    let (key, rest) ← simpleKey? (skipBlanks chars)
    match skipBlanks rest with
    | '.' :: rest =>
      let (others, rest) ← keys? fuel rest
      return (key :: others, rest)
    | rest => return ([key], rest)

/-- Keys and containers nest less deep than this. -/
def depthLimit : Nat := 80

/-- A path of keys. -/
def path? (chars : List Char) : Option (List String × List Char) :=
  (keys? (chars.length + 1) chars).bind fun (keys, rest) =>
    if keys.length < depthLimit then some (keys, rest) else none

end SpillStorage.Toml
