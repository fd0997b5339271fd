import TemplateAtlas.Template.Entry

/-!
# Blocks, items and fields

The narrow part of block structure that pipeline templates use. A file's lines lose their comments
and the lines that carry nothing; the lines under a key form its block; a block falls into items;
and an item that opens with a dash falls into fields.
-/

namespace TemplateAtlas.Template

open TemplateAtlas.Text

/-- A line that carries something, without its comment. -/
structure BlockLine where
  /-- Its number in the file, from zero. -/
  number : Nat
  /-- Its text, the indentation included. -/
  text : List Char
  deriving DecidableEq, Repr

namespace BlockLine

/-- The width of the indentation. -/
def indent (l : BlockLine) : Nat :=
  indentOf l.text

/-- The text after the indentation. -/
def content (l : BlockLine) : List Char :=
  l.text.dropWhile isIndent

end BlockLine

/-- The lines that carry something, with their numbers in the whole list. -/
def carryingLines (lines : List (List Char)) : List BlockLine :=
  lines.zipIdx.filterMap fun (line, number) =>
    if isIgnorable line then none else some ⟨number, stripComment line⟩

/-- The lines of a file that carry something. -/
def BlockLine.ofText (text : String) : List BlockLine :=
  carryingLines (linesOf text)

/-- Does the content open an item of a sequence? -/
def isDash : List Char → Bool
  | '-' :: cs => cs.head?.all isIndent
  | _ => false

/-- A line belongs to the block of a key if it is deeper than the key, or opens an item in the key's
own column. -/
def BlockLine.isUnder (keyIndent : Nat) (l : BlockLine) : Bool :=
  keyIndent < l.indent || (l.indent = keyIndent && isDash l.content)

/-- The lines after the first one that satisfies `p`. -/
def linesAfter (p : BlockLine → Bool) (lines : List BlockLine) : List BlockLine :=
  (lines.dropWhile (!p ·)).tail

/-- Does the line state the key in the first column? -/
def BlockLine.isTopLevel (key : List Char) (l : BlockLine) : Bool :=
  l.indent = 0 && hasKey key l.content

/-- The block of the first occurrence of a key in the first column. -/
def topLevelBlock (key : List Char) (lines : List BlockLine) : List BlockLine :=
  (linesAfter (·.isTopLevel key) lines).takeWhile (·.isUnder 0)

/-- The least indentation among the lines. -/
def leastIndent (lines : List BlockLine) : Option Nat :=
  (lines.map BlockLine.indent).min?

/-- An item of a block: a line in the block's own column with the deeper lines that follow it. -/
structure Item where
  /-- The number of its first line. -/
  line : Nat
  /-- Does it open with a dash? -/
  dashed : Bool
  /-- The content of its first line, after the dash if there is one. -/
  content : List Char
  /-- The column of that content. -/
  column : Nat
  /-- The lines that follow. -/
  body : List BlockLine
  deriving DecidableEq, Repr

/-- The content after a dash and the blanks that follow it, with the width of what was skipped. -/
def afterDash (content : List Char) : List Char × Nat :=
  let rest := trimStart content.tail
  (rest, byteLength content - byteLength rest)

/-- The item that a line opens. -/
def Item.ofLine (l : BlockLine) (body : List BlockLine) : Item :=
  if isDash l.content then
    let (content, width) := afterDash l.content
    ⟨l.number, true, content, l.indent + width, body⟩
  else
    ⟨l.number, false, l.content, l.indent, body⟩

/-- The lines before the first item of the given column, and the items. -/
def itemsFrom (column : Nat) : List BlockLine → List BlockLine × List Item
  | [] => ([], [])
  | l :: ls =>
    let (body, items) := itemsFrom column ls
    if l.indent ≤ column then ([], Item.ofLine l body :: items) else (l :: body, items)

/-- The items of a block. Its least indentation is the column in which they open; deeper lines
before the first item belong to none. -/
def itemsOf (block : List BlockLine) : List Item :=
  match leastIndent block with
  | none => []
  | some column => (itemsFrom column block).2

/-- The lines without the indentation that they share. -/
def dedent (lines : List BlockLine) : List (List Char) :=
  let shared := (leastIndent lines).getD 0
  lines.map (·.text.drop shared)

/-- A key of an item with its value and the lines nested under it. -/
structure Field where
  /-- The key. -/
  key : List Char
  /-- The value on the key's own line. -/
  value : List Char
  /-- The nested lines without the indentation that they share. -/
  nested : List (List Char)
  deriving DecidableEq, Repr

/-- The entry of a line that stands in the column of an item's keys. -/
def BlockLine.keyEntry? (column : Nat) (l : BlockLine) : Option Entry :=
  if l.indent ≤ column && !isDash l.content then Entry.ofContent? l.content else none

/-- The lines before the first field whose key stands in the given column, and the fields. -/
def fieldsFrom (column : Nat) : List BlockLine → List BlockLine × List Field
  | [] => ([], [])
  | l :: ls =>
    let (nested, fields) := fieldsFrom column ls
    match l.keyEntry? column with
    | some e => ([], ⟨e.key, e.value, dedent nested⟩ :: fields)
    | none => (l :: nested, fields)

/-- The column of an item's keys: that of its first content, or of a line further left. -/
def Item.keyColumn (item : Item) : Nat :=
  match leastIndent item.body with
  | none => item.column
  | some least => if item.content.isEmpty then least else min least item.column

/-- The fields of an item, the one on its first line included. -/
def Item.fields (item : Item) : List Field :=
  let (nested, fields) := fieldsFrom item.keyColumn item.body
  match Entry.ofContent? item.content with
  | some e => ⟨e.key, e.value, dedent nested⟩ :: fields
  | none => fields

/-- The first field with a key. -/
def field? (key : List Char) (fields : List Field) : Option Field :=
  fields.find? (·.key = key)

/-- The value of the first field with a key, without quotes. -/
def fieldValue? (key : List Char) (fields : List Field) : Option (List Char) :=
  (field? key fields).map (unquote ·.value)

end TemplateAtlas.Template
