import TemplateAtlas.Text.Blank
import TemplateAtlas.Text.Pieces

/-!
# Lines: comments, quotes and entries

The reading of a single line. A scan keeps track of open quotes; outside them `#` after a blank
starts a comment, and `:` before a blank or at the end separates the key of an entry from its value.
-/

namespace TemplateAtlas.Template

open TemplateAtlas.Text

/-- Which quotes are open while a line is scanned from left to right. -/
structure Quoting where
  /-- A single quote is open. -/
  single : Bool := false
  /-- A double quote is open. -/
  double : Bool := false
  deriving DecidableEq, Repr

namespace Quoting

/-- A quote inside quotes of the other kind is an ordinary character. -/
def step (q : Quoting) (c : Char) : Quoting :=
  if c = '\x27' && !q.double then { q with single := !q.single }
  else if c = '\x22' && !q.single then { q with double := !q.double }
  else q

/-- Is some quote open? -/
def isOpen (q : Quoting) : Bool :=
  q.single || q.double

end Quoting

/-- The characters before the first `#` that stands outside quotes and after a blank. -/
def cutComment (q : Quoting) (afterBlank : Bool) : List Char → List Char
  | [] => []
  | c :: cs =>
    if c = '#' && !q.isOpen && afterBlank then []
    else c :: cutComment (q.step c) (isBlank c) cs

/-- The line without its comment and without trailing blanks. The start of a line counts as a
blank. -/
def stripComment (line : List Char) : List Char :=
  trimEnd (cutComment {} true line)

/-- The number of leading spaces and tabs. -/
def indentOf (line : List Char) : Nat :=
  (line.takeWhile isIndent).length

/-- Blank lines and lines that hold only a comment carry nothing. -/
def isIgnorable (line : List Char) : Bool :=
  match trim line with
  | [] => true
  | c :: _ => c = '#'

/-- Each pair of single quotes becomes one. -/
def undouble : List Char → List Char
  | '\x27' :: '\x27' :: cs => '\x27' :: undouble cs
  | c :: cs => c :: undouble cs
  | [] => []

/-- The text between matching quotes, a doubled single quote inside single quotes standing for one;
any other text stands for itself without surrounding blanks. -/
def unquote (value : List Char) : List Char :=
  let v := trim value
  match v with
  | [] => []
  | q :: rest =>
    if (q = '\x27' || q = '\x22') && rest.getLast? = some q then
      if q = '\x27' then undouble rest.dropLast else rest.dropLast
    else v

/-- A key with its value, as `key: value` writes them. -/
structure Entry where
  /-- The key without quotes. -/
  key : List Char
  /-- The value as written, without surrounding blanks. -/
  value : List Char
  deriving DecidableEq, Repr

/-- The parts around the first colon outside quotes that a space, a tab or the end of the line
follows. -/
def splitAtColon (q : Quoting) : List Char → Option (List Char × List Char)
  | [] => none
  | c :: cs =>
    if c = ':' && !q.isOpen && (cs.head?.all isIndent) then some ([], cs)
    else (splitAtColon (q.step c) cs).map fun (before, after) => (c :: before, after)

/-- May this text be the key of an entry? A key is not empty, opens with no dash and holds no
space. -/
def isKey (key : List Char) : Bool :=
  !key.isEmpty && key.head? != some '-' && !key.contains ' '

/-- The entry that a line's content states, if it states one. -/
def Entry.ofContent? (content : List Char) : Option Entry :=
  match splitAtColon {} (trim content) with
  | none => none
  | some (before, after) =>
    let key := unquote before
    if isKey key then some ⟨key, trim after⟩ else none

/-- Does the content state an entry with this key? -/
def hasKey (key : List Char) (content : List Char) : Bool :=
  match Entry.ofContent? content with
  | some e => e.key = key
  | none => false

/-- The items of a list in brackets, empty ones left out. Commas separate, quoted or not. -/
def flowItems (value : List Char) : List (List Char) :=
  let inner := dropEndWhile (· = ']') ((trim value).dropWhile (· = '['))
  ((splitOn ',' inner).map unquote).filter (!·.isEmpty)

/-- The entries of a map in braces. Commas separate the pairs, the first colon of a pair its key. -/
def flowEntries (value : List Char) : List Entry :=
  let inner := dropEndWhile (· = '\x7d') ((trim value).dropWhile (· = '\x7b'))
  (splitOn ',' inner).filterMap fun pair =>
    match splitFirst? ':' pair with
    | none => none
    | some (k, v) => if (unquote k).isEmpty then none else some ⟨unquote k, unquote v⟩

/-- Does the text hold expression syntax, which is only expanded when a pipeline runs? -/
def isRuntimeExpression (text : List Char) : Bool :=
  occursIn ['$', '\x7b', '\x7b'] text || occursIn ['$', '('] text || occursIn ['$', '['] text

end TemplateAtlas.Template
