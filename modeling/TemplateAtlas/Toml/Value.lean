/-!
# TOML values

What a TOML document says, and why a text is no TOML document.
-/

namespace TemplateAtlas.Toml

/-- A value. -/
inductive Value where
  /-- A text. -/
  | text (value : String)
  /-- An integer. -/
  | integer (value : Int)
  /-- A number with a fraction or an exponent, infinity, or no number at all, as written. -/
  | float (literal : String)
  /-- A truth value. -/
  | bool (value : Bool)
  /-- A date, a time or both, as written. -/
  | moment (literal : String)
  /-- A list. -/
  | list (items : List Value)
  /-- A table with its entries. -/
  | table (entries : List (String × Value))
  deriving BEq, Repr, Inhabited

/-- Why a text is no TOML document. -/
inductive Fault where
  /-- The text cannot go on as it does, so many characters before its end. -/
  | unexpected (before : Nat)
  /-- Lists, tables or keys nest too deeply. -/
  | tooDeep
  /-- A number, a date or a character is out of range. -/
  | outOfRange (literal : String)
  /-- A key is given twice. -/
  | duplicate (key : String)
  /-- A key leads into something that is no table. -/
  | noTable (key : String)
  deriving DecidableEq, Repr

namespace Fault

/-- The wording of the fault. -/
def message : Fault → String
  | unexpected before => "unexpected text, " ++ toString before ++ " characters before the end"
  | tooDeep => "nested too deeply"
  | outOfRange literal => "out of range: " ++ literal
  | duplicate key => "duplicate key: " ++ key
  | noTable key => "no table: " ++ key

end Fault

/-- A reader takes something off the front of a text. -/
abbrev Reader (α : Type) :=
  List Char → Except Fault (α × List Char)

/-- The text cannot go on like this. -/
def refuse (rest : List Char) : Except Fault α :=
  .error (.unexpected rest.length)

end TemplateAtlas.Toml
