import SpillStorage.Value

/-!
The tables of a TOML document while it is read. A table is defined once: by a header, by dotted
keys, or in passing, on the way to another table. Only the last kind may still get a header of its
own, and only tables of the last two kinds may be entered by dotted keys.
-/

namespace SpillStorage.Toml

inductive Node where
  | value (v : Value)
  /-- A table; `implicit` if nothing but its parts was written, `dotted` if dotted keys made it. -/
  | table (implicit dotted : Bool) (entries : List (String × Node))
  /-- Tables under one header, the last one first. -/
  | tables (items : List Node)

namespace Node

def emptyTable : Node := .table false false []

/-- The first entry under a key. -/
def lookup? (entries : List (String × Node)) (key : String) : Option Node :=
  (entries.find? fun e => e.1 == key).map (·.2)

/-- The entries with another node under a key; a new key comes last. -/
def put (entries : List (String × Node)) (key : String) (node : Node) :
    List (String × Node) :=
  if entries.any fun e => e.1 == key then
    entries.map fun e => if e.1 == key then (key, node) else e
  else entries ++ [(key, node)]

/-- Changes the table at the end of a path, making the tables on the way. On a way of dotted keys a
table that was written out is not entered; an array of tables stands for its last table. -/
def changeAt? (dotted : Bool) (change : Node → Option Node) : List String → Node → Option Node
  | [], node => change node
  | key :: rest, .table implicit byDots entries =>
    match lookup? entries key with
    | none =>
      (changeAt? dotted change rest (.table true dotted [])).map fun child =>
        .table implicit byDots (put entries key child)
    | some (.value _) => none
    | some (.tables []) => none
    | some (.tables (last :: earlier)) =>
      (changeAt? dotted change rest last).map fun child =>
        .table implicit byDots (put entries key (.tables (child :: earlier)))
    | some (.table childImplicit childByDots childEntries) =>
      if dotted && !childImplicit then none
      else
        (changeAt? dotted change rest (.table childImplicit childByDots childEntries)).map
          fun child => .table implicit byDots (put entries key child)
  | _ :: _, _ => none

/-- Puts a value under a new key of a table that was made in the way that the key is written. -/
def define? (byPath : Bool) (key : String) (v : Value) : Node → Option Node
  | .table implicit dotted entries =>
    if dotted != byPath then none
    else if (lookup? entries key).isSome then none
    else some (.table implicit dotted (put entries key (.value v)))
  | _ => none

/-- Puts a value at the end of a path of keys. -/
def assign? (node : Node) (path : List String) (v : Value) : Option Node :=
  match path.getLast? with
  | none => none
  | some key =>
    changeAt? true (define? (!path.dropLast.isEmpty) key v) path.dropLast node

mutual

/-- The node as a value. -/
def toValue : Node → Value
  | .value v => v
  | .table _ _ entries => .table (entriesToValues entries)
  | .tables items => .list (itemsToValues items [])

/-- The entries of a table as fields. -/
def entriesToValues : List (String × Node) → List (List Fragment × Value)
  | [] => []
  | (key, node) :: rest => (Fragment.ofString key, toValue node) :: entriesToValues rest

/-- Tables as items, in the order in which they were written, before those already there. -/
def itemsToValues : List Node → List Value → List Value
  | [], later => later
  | node :: earlier, later => itemsToValues earlier (toValue node :: later)

end

end Node

/-- A document while it is read: the finished tables, and the one that its last header opened. -/
structure Draft where
  root : Node
  current : Node
  /-- Where the current table belongs; the root at first. -/
  path : List String
  /-- The current table is one more of an array of tables. -/
  repeated : Bool

namespace Draft

def start : Draft := ⟨.emptyTable, .emptyTable, [], false⟩

/-- Changes the entries of the table above the end of a path. -/
def changeParent? (root : Node) (path : List String)
    (change : Option Node → String → Option (Option Node)) : Option Node :=
  match path.getLast? with
  | none => none
  | some key =>
    Node.changeAt? false
      (fun parent =>
        match parent with
        | .table implicit dotted entries =>
          (change (Node.lookup? entries key) key).map fun child =>
            match child with
            | some node => .table implicit dotted (Node.put entries key node)
            | none => .table implicit dotted (entries.filter fun e => e.1 != key)
        | _ => none)
      path.dropLast root

/-- Puts the current table where it belongs. -/
def finish? (d : Draft) : Option Node :=
  if d.path.isEmpty then some d.current
  else
    changeParent? d.root d.path fun there _ =>
      if d.repeated then
        match there with
        | none => some (some (.tables [d.current]))
        | some (.tables items) => some (some (.tables (d.current :: items)))
        | some _ => none
      else
        match there with
        | none => some (some d.current)
        | some (.table true _ _) => some (some d.current)
        | some _ => none

/-- The table under a header: what was written of it in passing, or nothing yet. -/
def reopened (root : Node) (path : List String) : List (String × Node) :=
  match path with
  | [] => match root with
    | .table _ _ entries => entries
    | _ => []
  | key :: rest =>
    match root with
    | .table _ _ entries =>
      match Node.lookup? entries key with
      | some (.tables (last :: _)) => reopened last rest
      | some node => reopened node rest
      | none => []
    | _ => []

/-- Opens the table of a header. -/
def openTable? (d : Draft) (path : List String) : Option Draft := do
  let root ← d.finish?
  let without ← changeParent? root path fun there _ =>
    match there with
    | none => some none
    | some (.table true false _) => some none
    | some _ => none
  return ⟨without, .table false false (reopened root path), path, false⟩

/-- Opens one more table of an array. -/
def openRepeated? (d : Draft) (path : List String) : Option Draft := do
  let root ← d.finish?
  let root ← changeParent? root path fun there _ =>
    match there with
    | none => some (some (.tables []))
    | some (.tables items) => some (some (.tables items))
    | some _ => none
  return ⟨root, .emptyTable, path, true⟩

end Draft

end SpillStorage.Toml
