import TemplateAtlas.Path.RawText

/-!
# JSON documents

The values that answers are made of, and their printed form: members and items on lines of their
own, indented by two spaces for each level, with the members of an object in the order given. Paths
are raw texts, and a document with one that is not UTF-8 has no printed form.
-/

namespace TemplateAtlas

/-- A JSON value. -/
inductive Json where
  /-- No value. -/
  | null
  /-- A truth value. -/
  | bool (value : Bool)
  /-- A number. -/
  | number (value : Nat)
  /-- A text. -/
  | text (value : String)
  /-- A text as bytes. -/
  | raw (value : RawText)
  /-- A list of items. -/
  | list (items : List Json)
  /-- An object with its members. -/
  | object (members : List (String × Json))
  deriving BEq, Repr, Inhabited

namespace Json

/-- A text, or no value. -/
def optionalText : Option String → Json
  | none => null
  | some value => text value

/-- A number, or no value. -/
def optionalNumber : Option Nat → Json
  | none => null
  | some value => number value

/-- A list of texts. -/
def texts (values : List String) : Json :=
  list (values.map text)

/-- A hexadecimal digit. -/
def hexDigit (n : Nat) : Char :=
  if n < 10 then Char.ofNat (48 + n) else Char.ofNat (87 + n)

/-- A character inside a quoted text. Control characters without a short form are written by
number. -/
def escape (c : Char) : List Char :=
  if c = '\x22' then ['\\', '\x22']
  else if c = '\\' then ['\\', '\\']
  else if c = '\x08' then ['\\', 'b']
  else if c = '\x0c' then ['\\', 'f']
  else if c = '\n' then ['\\', 'n']
  else if c = '\r' then ['\\', 'r']
  else if c = '\t' then ['\\', 't']
  else if c.toNat < 0x20 then
    ['\\', 'u', '0', '0', hexDigit (c.toNat / 16), hexDigit (c.toNat % 16)]
  else [c]

/-- A text in quotes. -/
def quote (value : String) : String :=
  "\"" ++ String.ofList (value.toList.flatMap escape) ++ "\""

/-- The start of a line `level` levels deep. -/
def indentation (level : Nat) : String :=
  String.ofList (List.replicate (2 * level) ' ')

/-- Printed items between an opening and a closing bracket, each on a line of its own. -/
def block (opening closing : String) (level : Nat) (items : List String) : String :=
  if items.isEmpty then opening ++ closing
  else
    opening ++ "\n" ++ ",\n".intercalate (items.map (indentation (level + 1) ++ ·)) ++ "\n" ++
      indentation level ++ closing

mutual

/-- The value as text, `level` levels deep. -/
def renderAt (level : Nat) : Json → String
  | null => "null"
  | bool true => "true"
  | bool false => "false"
  | number value => toString value
  | text value => quote value
  | raw value => quote value.shown
  | list items => block "[" "]" level (renderItems (level + 1) items)
  | object members => block "\x7b" "\x7d" level (renderMembers (level + 1) members)

/-- The items of a list as texts. -/
def renderItems (level : Nat) : List Json → List String
  | [] => []
  | item :: items => renderAt level item :: renderItems level items

/-- The members of an object as texts. -/
def renderMembers (level : Nat) : List (String × Json) → List String
  | [] => []
  | (name, value) :: members =>
    (quote name ++ ": " ++ renderAt level value) :: renderMembers level members

end

mutual

/-- Are all bytes in the value UTF-8? -/
def isText : Json → Bool
  | raw value => value.isText
  | list items => areTexts items
  | object members => membersAreTexts members
  | _ => true

/-- Are all bytes in the items UTF-8? -/
def areTexts : List Json → Bool
  | [] => true
  | item :: items => isText item && areTexts items

/-- Are all bytes in the members UTF-8? -/
def membersAreTexts : List (String × Json) → Bool
  | [] => true
  | (_, value) :: members => isText value && membersAreTexts members

end

/-- The value as text, if all bytes in it are UTF-8. -/
def render? (value : Json) : Option String :=
  if value.isText then some (renderAt 0 value) else none

end Json

end TemplateAtlas
