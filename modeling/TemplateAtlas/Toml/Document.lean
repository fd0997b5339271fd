import TemplateAtlas.Toml.Number

/-!
# TOML documents

A document is a sequence of lines that open tables or give values to keys. Tables are built up from
several places of the text, and what may be added to a table depends on how it came about: a table
with a header of its own takes no further keys from elsewhere, and neither does a table or list that
was written as a value.
-/

namespace TemplateAtlas.Toml

/-- How a table came about. -/
inductive Origin where
  /-- By a header of its own, or as the whole document. -/
  | header
  /-- As a step in the header of another table. -/
  | passed
  /-- As a step in a key with dots. -/
  | dotted
  deriving DecidableEq, Repr

/-- What stands at a key while a document is read. -/
inductive Item where
  /-- A value. -/
  | value (v : Value)
  /-- A table that may still grow. -/
  | table (origin : Origin) (entries : List (String × Item))
  /-- A list of tables with headers, the last one first. -/
  | tables (elements : List (List (String × Item)))
  deriving Inhabited

/-- The entries of a table that is built up. -/
abbrev Entries :=
  List (String × Item)

mutual

/-- The value that an item ends up as. -/
def Item.toValue : Item → Value
  | .value v => v
  | .table _ entries => .table (entriesToValues entries)
  | .tables elements => .list (elementsToValues elements).reverse

/-- The values of entries. -/
def entriesToValues : List (String × Item) → List (String × Value)
  | [] => []
  | (key, item) :: entries => (key, item.toValue) :: entriesToValues entries

/-- The values of the tables of a list. -/
def elementsToValues : List (List (String × Item)) → List Value
  | [] => []
  | entries :: elements => .table (entriesToValues entries) :: elementsToValues elements

end

/-- What stands at a key. -/
def lookup (key : String) (entries : Entries) : Option Item :=
  (entries.find? fun e => e.1 = key).map fun e => e.2

/-- The entries with an item at a key. -/
def put (key : String) (item : Item) (entries : Entries) : Entries :=
  if (lookup key entries).isSome then entries.map fun e => if e.1 = key then (key, item) else e
  else entries ++ [(key, item)]

/-- The entries with the table at a path changed. Tables that are missing on the way are made; a
path of dots does not lead into tables with headers. The last element stands for a list of
tables. -/
def within (dotted : Bool) (change : Origin → Entries → Except Fault Entries) :
    List String → Origin → Entries → Except Fault Entries
  | [], origin, entries => change origin entries
  | key :: path, _, entries =>
    match lookup key entries with
    | none => do
      let origin := if dotted then Origin.dotted else .passed
      return put key (.table origin (← within dotted change path origin [])) entries
    | some (.value _) => .error (.noTable key)
    | some (.tables []) => .error (.noTable key)
    | some (.tables (last :: before)) => do
      return put key (.tables ((← within dotted change path .header last) :: before)) entries
    | some (.table origin inner) =>
      if dotted && origin = .header then .error (.duplicate key)
      else do return put key (.table origin (← within dotted change path origin inner)) entries

/-- A new value in a table. A key with dots adds to tables that such keys made, a key without to
others. -/
def addValue (dotted : Bool) (key : String) (v : Value) (origin : Origin) (entries : Entries) :
    Except Fault Entries :=
  if dotted != (origin = .dotted : Bool) || (lookup key entries).isSome then .error (.duplicate key)
  else .ok (put key (.value v) entries)

/-- The entries with a value at a key that may have dots. -/
def assign (key : List String) (v : Value) (entries : Entries) : Except Fault Entries :=
  let path := key.dropLast
  let dotted := !path.isEmpty
  within dotted (addValue dotted (key.getLastD "") v) path .header entries

/-! ### Values -/

/-- The items of a list, after the opening bracket. -/
def readItems (value : Reader Value) : Nat → Reader (List Value)
  | 0, cs => refuse cs
  | n + 1, cs =>
    match skipLines false cs with
    | ']' :: rest => .ok ([], rest)
    | cs => do
      let (v, rest) ← value cs
      match skipLines false rest with
      | ',' :: rest => (readItems value n rest).map fun (vs, rest) => (v :: vs, rest)
      | ']' :: rest => return ([v], rest)
      | rest => refuse rest

/-- A key with its value, separated by an equals sign. -/
def readPair (value : Reader Value) : Reader (List String × Value) := fun cs => do
  let (key, rest) ← readKey cs
  match rest with
  | '=' :: rest =>
    let (v, rest) ← value (skipBlanks rest)
    return ((key, v), rest)
  | rest => refuse rest

/-- The pairs of a table in braces, after the opening brace or a comma. -/
def readPairs (value : Reader Value) : Nat → Reader (List (List String × Value))
  | 0, cs => refuse cs
  | n + 1, cs => do
    let (pair, rest) ← readPair value cs
    match skipBlanks rest with
    | ',' :: rest => (readPairs value n rest).map fun (pairs, rest) => (pair :: pairs, rest)
    | '\x7d' :: rest => return ([pair], rest)
    | rest => refuse rest

/-- The table with these pairs. -/
def tableOf (pairs : List (List String × Value)) : Except Fault Value := do
  let entries ← pairs.foldlM (fun entries (key, v) => assign key v entries) []
  return .table (entriesToValues entries)

/-- A truth value, if the text opens with one. -/
def readBool? (cs : List Char) : Option (Value × List Char) :=
  match cs with
  | 't' :: 'r' :: 'u' :: 'e' :: rest => some (.bool true, rest)
  | 'f' :: 'a' :: 'l' :: 's' :: 'e' :: rest => some (.bool false, rest)
  | _ => none

/-- A text, a truth value, a date or a number. -/
def readScalar : Reader Value := fun cs =>
  match readText? cs with
  | some r => r.map fun (text, rest) => (.text (String.ofList text), rest)
  | none =>
    match readBool? cs with
    | some r => .ok r
    | none =>
      match readMoment? cs with
      | some r => r
      | none => readNumber cs

/-- A value with lists and tables at most `depth` deep. -/
def readValue : Nat → Reader Value
  | 0, cs =>
    match cs with
    | '[' :: _ => .error .tooDeep
    | '\x7b' :: _ => .error .tooDeep
    | cs => readScalar cs
  | depth + 1, cs =>
    match cs with
    | '[' :: rest => (readItems (readValue depth) cs.length rest).map fun (vs, rest) =>
      (.list vs, rest)
    | '\x7b' :: rest =>
      match skipBlanks rest with
      | '\x7d' :: rest => .ok (.table [], rest)
      | rest => do
        let (pairs, rest) ← readPairs (readValue depth) cs.length rest
        return (← tableOf pairs, rest)
    | cs => readScalar cs

/-! ### Documents -/

/-- A document of which a part has been read. -/
structure Draft where
  /-- What was read before the current table. -/
  root : Entries := []
  /-- The key of the current table. -/
  path : List String := []
  /-- Is the current table an element of a list? -/
  listed : Bool := false
  /-- What was read of the current table. -/
  entries : Entries := []

namespace Draft

/-- The entries with the current table in its place. -/
def close (d : Draft) : Except Fault Entries :=
  match d.path with
  | [] => .ok d.entries
  | path =>
    let key := path.getLastD ""
    within false (fun _ parent =>
      if d.listed then
        match lookup key parent with
        | none => .ok (put key (.tables [d.entries]) parent)
        | some (.tables elements) => .ok (put key (.tables (d.entries :: elements)) parent)
        | some _ => .error (.duplicate key)
      else .ok (put key (.table .header d.entries) parent)) path.dropLast .header d.root

/-- The entries of a table that a header opens: none, or those of a table that was only passed
through. -/
def openingEntries (key : String) (parent : Entries) : Except Fault Entries :=
  match lookup key parent with
  | none => .ok []
  | some (.table .passed entries) => .ok entries
  | some _ => .error (.duplicate key)

/-- The entries at a path, where missing tables are empty. -/
def entriesAt (path : List String) (entries : Entries) : Entries :=
  match path with
  | [] => entries
  | key :: path =>
    match lookup key entries with
    | some (.table _ inner) => entriesAt path inner
    | some (.tables (last :: _)) => entriesAt path last
    | _ => []

/-- A header opens a table. -/
def openTable (path : List String) (d : Draft) : Except Fault Draft := do
  let key := path.getLastD ""
  let root ← within false (fun _ parent => do
    let _ ← openingEntries key parent
    return parent) path.dropLast .header (← d.close)
  let entries ← openingEntries key (entriesAt path.dropLast root)
  return { root := root, path := path, entries := entries }

/-- A header opens the next table of a list. -/
def openElement (path : List String) (d : Draft) : Except Fault Draft := do
  let key := path.getLastD ""
  let root ← within false (fun _ parent =>
    match lookup key parent with
    | none => .ok parent
    | some (.tables _) => .ok parent
    | some _ => .error (.duplicate key)) path.dropLast .header (← d.close)
  return { root := root, path := path, listed := true }

/-- A key gets a value in the current table. -/
def assign (key : List String) (v : Value) (d : Draft) : Except Fault Draft := do
  return { d with entries := ← Toml.assign key v d.entries }

end Draft

/-- The draft after a header, given without its first bracket. -/
def readHeader (d : Draft) (cs : List Char) : Except Fault (Draft × List Char) :=
  match cs with
  | '[' :: cs => do
    let (path, rest) ← readKey cs
    match rest with
    | ']' :: ']' :: rest => return (← d.openElement path, ← endLine rest)
    | rest => refuse rest
  | cs => do
    let (path, rest) ← readKey cs
    match rest with
    | ']' :: rest => return (← d.openTable path, ← endLine rest)
    | rest => refuse rest

/-- The draft after the rest of a document of at most `n` lines. -/
def readLines : Nat → Draft → List Char → Except Fault Draft
  | 0, d, _ => .ok d
  | n + 1, d, cs =>
    match skipBlanks cs with
    | [] => .ok d
    | '\n' :: rest => readLines n d rest
    | '\r' :: '\n' :: rest => readLines n d rest
    | '#' :: rest => do readLines n d (← endLine ('#' :: rest))
    | '[' :: rest => do
      let (d, rest) ← readHeader d rest
      readLines n d rest
    | cs => do
      let ((key, v), rest) ← readPair (readValue (depthLimit - 1)) cs
      let d ← d.assign key v
      readLines n d (← endLine rest)

/-- The entries that a document states. A byte order mark at its start does not count. -/
def parse (text : String) : Except Fault (List (String × Value)) := do
  let cs := text.toList
  let cs := if cs.head? = some '\ufeff' then cs.tail else cs
  let d ← readLines (cs.length + 1) {} cs
  return entriesToValues (← d.close)

end TemplateAtlas.Toml
