import TemplateAtlas.Toml.Value

/-!
# Texts, keys and blanks of TOML

The four ways to write a text, the keys with their dots, and what may stand between them.
-/

namespace TemplateAtlas.Toml

/-- A space or a tab. -/
def isBlank (c : Char) : Bool :=
  c = ' ' || c = '\t'

/-- Characters that may stand anywhere in a line: all but the control characters, tabs apart. -/
def isPlain (c : Char) : Bool :=
  c = '\t' || (' ' ≤ c && c ≠ '\x7f')

/-- The text without blanks at its start. -/
def skipBlanks (cs : List Char) : List Char :=
  cs.dropWhile isBlank

/-- The text after blanks, line ends and comments. -/
def skipLines (inComment : Bool) : List Char → List Char
  | [] => []
  | '\n' :: cs => skipLines false cs
  | '\r' :: '\n' :: cs => skipLines false cs
  | c :: cs =>
    if inComment then (if isPlain c then skipLines true cs else c :: cs)
    else if isBlank c then skipLines false cs
    else if c = '#' then skipLines true cs
    else c :: cs

/-- The text after the rest of a line, which may hold a comment alone. -/
def endLine (cs : List Char) : Except Fault (List Char) :=
  let cs := skipBlanks cs
  let cs := if cs.head? = some '#' then cs.dropWhile isPlain else cs
  match cs with
  | [] => .ok []
  | '\n' :: rest => .ok rest
  | '\r' :: '\n' :: rest => .ok rest
  | rest => refuse rest

/-! ### Texts -/

/-- The value of a hexadecimal digit. -/
def hexValue? (c : Char) : Option Nat :=
  if '0' ≤ c && c ≤ '9' then some (c.toNat - 48)
  else if 'a' ≤ c && c ≤ 'f' then some (c.toNat - 87)
  else if 'A' ≤ c && c ≤ 'F' then some (c.toNat - 55)
  else none

/-- The number that digits of a base write. -/
def numberOf (base : Nat) (digits : List Char) : Nat :=
  digits.foldl (fun n c => base * n + (hexValue? c).getD 0) 0

/-- The character with a hexadecimal number. -/
def characterOf (digits : List Char) : Except Fault Char :=
  let n := numberOf 16 digits
  if digits.all fun c => (hexValue? c).isSome then
    if n < 0xd800 || (0xdfff < n && n < 0x110000) then .ok (Char.ofNat n)
    else .error (.outOfRange (String.ofList digits))
  else refuse digits

/-- The character that a letter after a backslash stands for. -/
def escaped? (c : Char) : Option Char :=
  if c = 'b' then some '\x08'
  else if c = 't' then some '\t'
  else if c = 'n' then some '\n'
  else if c = 'f' then some '\x0c'
  else if c = 'r' then some '\r'
  else if c = '\x22' || c = '\\' then some c
  else none

/-- A reading with one more character in front. -/
def prepend (c : Char) (r : Except Fault (List Char × List Char)) :
    Except Fault (List Char × List Char) :=
  r.map fun (text, rest) => (c :: text, rest)

/-- A text in double quotes, after the first. -/
def readQuoted : Reader (List Char)
  | [] => refuse []
  | '\x22' :: cs => .ok ([], cs)
  | '\\' :: 'u' :: a :: b :: c :: d :: cs => do
    prepend (← characterOf [a, b, c, d]) (readQuoted cs)
  | '\\' :: 'U' :: a :: b :: c :: d :: e :: f :: g :: h :: cs => do
    prepend (← characterOf [a, b, c, d, e, f, g, h]) (readQuoted cs)
  | '\\' :: c :: cs =>
    match escaped? c with
    | some e => prepend e (readQuoted cs)
    | none => refuse (c :: cs)
  | c :: cs => if isPlain c && c ≠ '\\' then prepend c (readQuoted cs) else refuse (c :: cs)

/-- A text in single quotes, after the first. -/
def readLiteral : Reader (List Char)
  | [] => refuse []
  | '\x27' :: cs => .ok ([], cs)
  | c :: cs => if isPlain c then prepend c (readLiteral cs) else refuse (c :: cs)

/-- The quotes after three closing ones that still belong to the text: at most two. -/
def finalQuotes (quote : Char) : List Char → List Char × List Char
  | a :: b :: cs =>
    if a = quote && b = quote then ([a, b], cs)
    else if a = quote then ([a], b :: cs)
    else ([], a :: b :: cs)
  | [a] => if a = quote then ([a], []) else ([], [a])
  | [] => ([], [])

/-- Do only blanks stand before the end of the line? -/
def lineEndsBlank (cs : List Char) : Bool :=
  match skipBlanks cs with
  | '\n' :: _ => true
  | '\r' :: '\n' :: _ => true
  | _ => false

/-- A text between triple double quotes, after the first three. After a backslash at the end of a
line, blanks and line ends are skipped. -/
def readQuotedLines (skipping : Bool) : Reader (List Char)
  | [] => refuse []
  | '\x22' :: '\x22' :: '\x22' :: cs => .ok (finalQuotes '\x22' cs)
  | '\n' :: cs =>
    if skipping then readQuotedLines true cs else prepend '\n' (readQuotedLines false cs)
  | '\r' :: '\n' :: cs =>
    if skipping then readQuotedLines true cs else prepend '\n' (readQuotedLines false cs)
  | '\\' :: 'u' :: a :: b :: c :: d :: cs => do
    prepend (← characterOf [a, b, c, d]) (readQuotedLines false cs)
  | '\\' :: 'U' :: a :: b :: c :: d :: e :: f :: g :: h :: cs => do
    prepend (← characterOf [a, b, c, d, e, f, g, h]) (readQuotedLines false cs)
  | '\\' :: c :: cs =>
    match escaped? c with
    | some e => prepend e (readQuotedLines false cs)
    | none => if lineEndsBlank (c :: cs) then readQuotedLines true (c :: cs) else refuse (c :: cs)
  | c :: cs =>
    if skipping && isBlank c then readQuotedLines true cs
    else if isPlain c && c ≠ '\\' then prepend c (readQuotedLines false cs)
    else refuse (c :: cs)

/-- A text between triple single quotes, after the first three. -/
def readLiteralLines : Reader (List Char)
  | [] => refuse []
  | '\x27' :: '\x27' :: '\x27' :: cs => .ok (finalQuotes '\x27' cs)
  | '\n' :: cs => prepend '\n' (readLiteralLines cs)
  | '\r' :: '\n' :: cs => prepend '\n' (readLiteralLines cs)
  | c :: cs => if isPlain c then prepend c (readLiteralLines cs) else refuse (c :: cs)

/-- The text without a line end at its start. -/
def skipLineEnd : List Char → List Char
  | '\n' :: cs => cs
  | '\r' :: '\n' :: cs => cs
  | cs => cs

/-- A text in quotes of any kind, if the text opens with a quote. -/
def readText? (cs : List Char) : Option (Except Fault (List Char × List Char)) :=
  match cs with
  | '\x22' :: '\x22' :: '\x22' :: rest => some (readQuotedLines false (skipLineEnd rest))
  | '\x27' :: '\x27' :: '\x27' :: rest => some (readLiteralLines (skipLineEnd rest))
  | '\x22' :: rest => some (readQuoted rest)
  | '\x27' :: rest => some (readLiteral rest)
  | _ => none

/-! ### Keys -/

/-- Characters of a key without quotes. -/
def isBare (c : Char) : Bool :=
  c.isAlphanum || c = '_' || c = '-'

/-- A key without dots. -/
def readSimpleKey : Reader String
  | '\x22' :: cs => (readQuoted cs).map fun (key, rest) => (String.ofList key, rest)
  | '\x27' :: cs => (readLiteral cs).map fun (key, rest) => (String.ofList key, rest)
  | cs =>
    if (cs.takeWhile isBare).isEmpty then refuse cs
    else .ok (String.ofList (cs.takeWhile isBare), cs.dropWhile isBare)

/-- The greatest depth of lists, tables and keys is one less. -/
def depthLimit : Nat := 80

/-- A key of at most `n` parts between dots, each with blanks around it. -/
def readParts : Nat → Reader (List String)
  | 0, _ => .error .tooDeep
  | n + 1, cs => do
    let (part, rest) ← readSimpleKey (skipBlanks cs)
    match skipBlanks rest with
    | '.' :: rest => (readParts n rest).map fun (parts, rest) => (part :: parts, rest)
    | rest => return ([part], rest)

/-- A key. -/
def readKey : Reader (List String) :=
  readParts (depthLimit - 1)

end TemplateAtlas.Toml
