import TemplateAtlas.SortedMap
import TemplateAtlas.Text.Word
import TemplateAtlas.Template.Entry

/-!
# Used parameters

The body of a template uses a parameter as `parameters.name` or `parameters['name']`. Occurrences
are found from left to right and do not overlap.
-/

namespace TemplateAtlas.Template

open TemplateAtlas.Text

/-- Characters that open a name. -/
def isNameStart (c : Char) : Bool :=
  c.isAlpha || c = '_'

/-- Characters inside a name. -/
def isNamePart (c : Char) : Bool :=
  c.isAlphanum || c = '_' || c = '-'

/-- The name after `parameters.` at the start of a text. -/
def dotUsage? (cs : List Char) : Option (List Char) :=
  match dropPrefix? "parameters.".toList cs with
  | some (c :: rest) => if isNameStart c then some (c :: rest.takeWhile isNamePart) else none
  | _ => none

/-- The single and the double quote. -/
def isQuote (c : Char) : Bool :=
  c = '\x27' || c = '\x22'

/-- The name inside `parameters['…']` at the start of a text, with what follows the closing
bracket. -/
def indexUsage? (cs : List Char) : Option (List Char × List Char) :=
  match (dropPrefix? "parameters[".toList cs).map trimStart with
  | some (q :: rest) =>
    let name := rest.takeWhile fun c => !isQuote c && c != ']'
    if isQuote q && !name.isEmpty then
      match rest.drop name.length with
      | q' :: rest' =>
        if isQuote q' then (dropPrefix? [']'] (trimStart rest')).map (name, ·) else none
      | [] => none
    else none
  | _ => none

/-- The names that `here?` finds at word starts. It gives a name with the length of its occurrence,
which is skipped; `skip` characters are still to be passed over, and `inWord` tells whether a word
character stands before. -/
def occurrences (here? : List Char → Option (List Char × Nat)) (skip : Nat) (inWord : Bool) :
    List Char → List (List Char)
  | [] => []
  | c :: cs =>
    match skip with
    | k + 1 => occurrences here? k (isWord c) cs
    | 0 =>
      match (if inWord then none else here? (c :: cs)) with
      | some (name, length) => name :: occurrences here? (length - 1) (isWord c) cs
      | none => occurrences here? 0 (isWord c) cs

/-- The names used with a dot in a line. -/
def dotUsages (line : List Char) : List (List Char) :=
  occurrences (fun cs => (dotUsage? cs).map fun name => (name, "parameters.".length + name.length))
    0 false line

/-- The names used in brackets in a line. -/
def indexUsages (line : List Char) : List (List Char) :=
  occurrences (fun cs => (indexUsage? cs).map fun (name, rest) => (name, cs.length - rest.length))
    0 false line

/-- The names used in a line outside its comment. -/
def usagesOfLine (line : List Char) : List (List Char) :=
  dotUsages (stripComment line) ++ indexUsages (stripComment line)

/-- The names of the parameters that a file uses. -/
def usages (text : String) : SortedSet String :=
  .ofList (((linesOf text).flatMap usagesOfLine).map String.ofList)

end TemplateAtlas.Template
