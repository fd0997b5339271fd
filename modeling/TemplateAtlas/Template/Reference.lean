import TemplateAtlas.Template.Block

/-!
# References to templates

Every line `template: value`, possibly opened by a dash, refers to a template. A file is a
pipeline's entry file when it carries one of the top-level keys that only those have.
-/

namespace TemplateAtlas.Template

open TemplateAtlas.Text

/-- A reference to a template. -/
structure TemplateReference where
  /-- The reference as written, without quotes. -/
  raw : String
  /-- The line that makes it, from zero. -/
  line : Nat
  deriving DecidableEq, Repr

/-- A reference with expression syntax is only known when the pipeline runs. -/
def TemplateReference.isRuntimeExpression (r : TemplateReference) : Bool :=
  Template.isRuntimeExpression r.raw.toList

/-- The text without a dash in front and the blanks that must follow it; any other text
unchanged. -/
def dropDash : List Char → List Char
  | '-' :: c :: cs => if isBlank c then trimStart cs else '-' :: c :: cs
  | cs => cs

/-- The value that a line gives to the key `template`, if the line opens with that key. -/
def templateValue? (line : List Char) : Option (List Char) :=
  match dropPrefix? "template".toList (dropDash (trimStart line)) with
  | none => none
  | some rest => dropPrefix? [':'] (trimStart rest)

/-- The reference that a line makes; an empty value makes none. -/
def referenceOfLine? (line : List Char) (number : Nat) : Option TemplateReference :=
  match templateValue? (stripComment line) with
  | none => none
  | some value =>
    if (unquote value).isEmpty then none else some ⟨String.ofList (unquote value), number⟩

/-- The references among the lines, in their order. -/
def referencesIn (lines : List (List Char)) : List TemplateReference :=
  lines.zipIdx.filterMap fun (line, number) => referenceOfLine? line number

/-- The references of a file, in the order of their lines. -/
def references (text : String) : List TemplateReference :=
  referencesIn (linesOf text)

/-- The top-level keys of pipeline entry files. -/
def pipelineKeys : List (List Char) :=
  ["trigger", "pr", "schedules", "stages", "jobs", "extends"].map String.toList

/-- Is the file a pipeline's entry file? -/
def isPipelineRoot (text : String) : Bool :=
  (BlockLine.ofText text).any fun l => pipelineKeys.any fun key => l.isTopLevel key

end TemplateAtlas.Template
