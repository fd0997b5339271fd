import TemplateAtlas.Template.Block

/-!
# Declared parameters

A template declares its parameters in the block of the top-level key `parameters`: as a list of
items with the keys `name`, `type`, `default`, `displayName` and `values`, or in the older form as a
map from names to defaults.
-/

namespace TemplateAtlas.Template

open TemplateAtlas.Text

/-- A declared parameter. -/
structure ParameterDeclaration where
  /-- Its name. -/
  name : String
  /-- The type it is declared with; `string` if none is. -/
  type : String
  /-- The default, with the lines of a nested one joined. -/
  default? : Option String
  /-- Must a call site pass it? -/
  required : Bool
  /-- The line that declares it, from zero. -/
  line : Nat
  /-- The name to show for it. -/
  displayName? : Option String
  /-- The values it is restricted to, if any are listed. -/
  allowed : List String
  deriving DecidableEq, Repr

/-- A parameter is required exactly when it has no default. -/
def ParameterDeclaration.declare (name type : String) (default? : Option String) (line : Nat) :
    ParameterDeclaration :=
  ⟨name, type, default?, default?.isNone, line, none, []⟩

/-- The value of a `default` field: what stands on its line, or the nested lines. -/
def Field.defaultText (f : Field) : List Char :=
  if f.value.isEmpty then joinLines f.nested else unquote f.value

/-- The values of a `values` field, listed in brackets or as nested items. -/
def Field.valueList (f : Field) : List (List Char) :=
  if f.value.head? = some '[' then flowItems f.value
  else
    (f.nested.filterMap fun line =>
      (dropPrefix? ['-'] (trimStart line)).map unquote).filter (!·.isEmpty)

/-- The declaration that the fields of an item make; an item without a name makes none. -/
def parameterOfFields? (fields : List Field) (line : Nat) : Option ParameterDeclaration :=
  match fieldValue? "name".toList fields with
  | none => none
  | some name =>
    if name.isEmpty then none
    else
      let type := ((fieldValue? "type".toList fields).filter (!·.isEmpty)).getD "string".toList
      let default? := (field? "default".toList fields).map (String.ofList ·.defaultText)
      let declared := ParameterDeclaration.declare (String.ofList name)
        (String.ofList type) default? line
      some { declared with
        displayName? := (fieldValue? "displayName".toList fields).map String.ofList
        allowed := ((field? "values".toList fields).map Field.valueList).getD
          [] |>.map String.ofList }

/-- The declaration that an entry of the older map form makes. It always has a default: the value on
the line as a string, or the nested lines as an object. -/
def parameterOfEntry (e : Entry) (item : Item) : ParameterDeclaration :=
  let nested := joinLines (dedent item.body)
  if e.value.isEmpty && !nested.isEmpty then
    .declare (String.ofList e.key) "object" (some (String.ofList nested)) item.line
  else
    .declare (String.ofList e.key) "string" (some (String.ofList (unquote e.value))) item.line

/-- The declaration that an item of the block makes. -/
def parameterOfItem? (item : Item) : Option ParameterDeclaration :=
  if item.dashed then parameterOfFields? item.fields item.line
  else (Entry.ofContent? item.content).map (parameterOfEntry · item)

/-- The parameters that lines declare. -/
def parametersIn (lines : List BlockLine) : List ParameterDeclaration :=
  (itemsOf (topLevelBlock "parameters".toList lines)).filterMap parameterOfItem?

/-- The parameters that a template declares, in the order of the file. -/
def parameters (text : String) : List ParameterDeclaration :=
  parametersIn (BlockLine.ofText text)

end TemplateAtlas.Template
