import TemplateAtlas.SortedMap
import TemplateAtlas.Template.Block

/-!
# Passed parameters

The arguments of a call site: the entries of the block `parameters` that stands in the column of the
key `template`, up to the next call site or the end of the surrounding item.
-/

namespace TemplateAtlas.Template

open TemplateAtlas.Text

/-- A parameter passed at a call site. -/
structure PassedParameter where
  /-- Its name. -/
  name : String
  /-- Its value, without quotes. -/
  value : String
  /-- The line that passes it, from zero. -/
  line : Nat
  deriving DecidableEq, Repr

/-- Where the scan of a call site stands. -/
inductive CallSiteState where
  /-- Outside the block `parameters`. -/
  | outside
  /-- Under the key `parameters`, before its first entry. -/
  | opened
  /-- Among its entries, which stand in the given column. -/
  | inside (column : Nat)
  deriving DecidableEq, Repr

/-- The line without the carriage returns at its end. -/
def dropReturns (line : List Char) : List Char :=
  dropEndWhile (· = '\r') line

/-- The column of the key `template` in a line, if the line is a call site. -/
def callSiteColumn? (line : List Char) : Option Nat :=
  let header := stripComment (dropReturns line)
  let indent := indentOf header
  let content := header.dropWhile isIndent
  let (content, column) :=
    if content.head? = some '-' then
      let (rest, width) := afterDash content
      (rest, indent + width)
    else (content, indent)
  if hasKey "template".toList content then some column else none

/-- The parameter that an entry on a line passes. -/
def PassedParameter.ofEntry (e : Entry) (line : Nat) : PassedParameter :=
  ⟨String.ofList e.key, String.ofList (unquote e.value), line⟩

/-- The parameters passed by the lines after a call site whose key stands in `column`. -/
def argumentsFrom (column : Nat) : CallSiteState → List (List Char × Nat) → List PassedParameter
  | _, [] => []
  | state, (raw, number) :: rest =>
    let raw := dropReturns raw
    if isIgnorable raw then argumentsFrom column state rest
    else
      let line := stripComment raw
      let indent := indentOf line
      let content := line.dropWhile isIndent
      if indent < column then []
      else if indent = column then
        if content.head? = some '-' then []
        else
          match Entry.ofContent? content with
          | none => argumentsFrom column .outside rest
          | some e =>
            if e.key = "parameters".toList then
              if e.value.head? = some '\x7b' then
                (flowEntries e.value).map
                  (fun p => ⟨String.ofList p.key, String.ofList p.value, number⟩) ++
                  argumentsFrom column .outside rest
              else argumentsFrom column .opened rest
            else if e.key = "template".toList then []
            else argumentsFrom column .outside rest
      else
        match state with
        | .outside => argumentsFrom column .outside rest
        | .opened =>
          (argumentOf indent content number indent).toList ++
            argumentsFrom column (.inside indent) rest
        | .inside entryColumn =>
          (argumentOf entryColumn content number indent).toList ++
            argumentsFrom column (.inside entryColumn) rest
where
  /-- The parameter passed by a line with this content, if it stands in the column of the
  entries. -/
  argumentOf (entryColumn : Nat) (content : List Char) (number indent : Nat) :
      Option PassedParameter :=
    if indent != entryColumn || content.head? = some '-' then none
    else (Entry.ofContent? content).map (PassedParameter.ofEntry · number)

/-- The parameters passed at the call site on a line, in the order of the lines. -/
def argumentsAt (lines : List (List Char)) (line : Nat) : List PassedParameter :=
  match lines.zipIdx.drop line with
  | [] => []
  | (header, _) :: rest =>
    match callSiteColumn? header with
    | none => []
    | some column => argumentsFrom column .outside rest

/-- The parameters passed at the call site on a line, by name. Of a repeated name the first
counts. -/
def passedParameters (lines : List (List Char)) (line : Nat) : SortedMap String PassedParameter :=
  .ofListFirst ((argumentsAt lines line).map fun p => (p.name, p))

end TemplateAtlas.Template
