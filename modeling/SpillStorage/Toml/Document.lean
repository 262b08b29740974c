import SpillStorage.Toml.Node
import SpillStorage.Toml.Scalar

/-!
TOML documents: values with parts, and the lines of a document. A document is one table.
-/

namespace SpillStorage.Toml

mutual

/-- A value inside `depth` containers. -/
def value? : Nat → Nat → Reader Value
  | 0, _, _ => none
  | fuel + 1, depth, '[' :: rest =>
    if depth + 1 < depthLimit then
      (items? fuel (depth + 1) rest).map fun (items, rest) => (.list items, rest)
    else none
  | fuel + 1, depth, '\x7b' :: rest =>
    if depth + 1 < depthLimit then
      match skipBlanks rest with
      | '\x7d' :: rest => some (.table [], rest)
      | rest =>
        (pairs? fuel (depth + 1) .emptyTable rest).map fun (node, rest) => (node.toValue, rest)
    else none
  | _ + 1, _, chars => scalarValue? chars

/-- The items of an array up to its end; a comma may stand after the last. -/
def items? : Nat → Nat → Reader (List Value)
  | 0, _, _ => none
  | fuel + 1, depth, chars =>
    match skipLines false chars with
    | none => none
    | some (']' :: rest) => some ([], rest)
    | some chars =>
      match value? fuel depth chars with
      | none => none
      | some (v, rest) =>
        match skipLines false rest with
        | some (',' :: rest) =>
          (items? fuel depth rest).map fun (items, rest) => (v :: items, rest)
        | some (']' :: rest) => some ([v], rest)
        | _ => none

/-- The pairs of an inline table up to its end, put into a table. -/
def pairs? : Nat → Nat → Node → Reader Node
  | 0, _, _, _ => none
  | fuel + 1, depth, node, chars =>
    match path? chars with
    | some (path, '=' :: rest) =>
      match value? fuel depth (skipBlanks rest) with
      | none => none
      | some (v, rest) =>
        match node.assign? path v with
        | none => none
        | some node =>
          match skipBlanks rest with
          | ',' :: rest => pairs? fuel depth node rest
          | '\x7d' :: rest => some (node, rest)
          | _ => none
    | _ => none

end

/-- A key with its value, into the current table. -/
def pair? (d : Draft) (chars : List Char) : Option (Draft × List Char) :=
  match path? chars with
  | some (path, '=' :: rest) => do
    let (v, rest) ← value? (2 * rest.length + 1) 0 (skipBlanks rest)
    let current ← d.current.assign? path v
    let rest ← endLine? rest
    return ({ d with current := current }, rest)
  | _ => none

/-- A header, after its opening brackets. -/
def header? (d : Draft) (repeated : Bool) (chars : List Char) : Option (Draft × List Char) := do
  let (path, rest) ← path? chars
  let rest ←
    if repeated then (after? ']' rest).bind (after? ']') else after? ']' rest
  let rest ← endLine? rest
  let d ← if repeated then d.openRepeated? path else d.openTable? path
  return (d, rest)

/-- One line: a comment, a header, a pair or nothing. -/
def line? (d : Draft) : List Char → Option (Draft × List Char)
  | '[' :: '[' :: rest => header? d true rest
  | '[' :: rest => header? d false rest
  | c :: rest =>
    if c == '#' || c == '\n' || c == '\r' then (endLine? (c :: rest)).map fun rest => (d, rest)
    else pair? d (c :: rest)
  | [] => some (d, [])

/-- The lines up to the end. -/
def lines? : Nat → Draft → List Char → Option Draft
  | 0, _, _ => none
  | fuel + 1, d, chars =>
    match skipBlanks chars with
    | [] => some d
    | chars => (line? d chars).bind fun (d, rest) => lines? fuel d rest

/-- The table that a document writes. A mark of the byte order may stand in front. -/
def parse? (text : String) : Option Value := do
  let chars :=
    match text.toList with
    | '\ufeff' :: rest => rest
    | chars => chars
  let d ← lines? (chars.length + 1) .start chars
  return (← d.finish?).toValue

end SpillStorage.Toml
