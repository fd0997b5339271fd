import TemplateAtlas.Graph.Outgoing
import TemplateAtlas.Template.Argument
import TemplateAtlas.Template.Usage

/-!
# Diagnostics

What is wrong in a file: call sites that do not fit what their templates declare, references that
lead nowhere, and declared parameters that the file never uses.
-/

namespace TemplateAtlas

open TemplateAtlas.Text TemplateAtlas.Template

/-- How bad a finding is. -/
inductive Severity where
  /-- The pipeline will not run. -/
  | error
  /-- It will, but something looks wrong. -/
  | warning
  /-- Something to know. -/
  | info
  deriving DecidableEq, Repr

namespace Severity

/-- The name. -/
def name : Severity → String
  | error => "error"
  | warning => "warning"
  | info => "info"

/-- The worse, the lower. -/
def rank : Severity → Nat
  | error => 0
  | warning => 1
  | info => 2

end Severity

/-- What was found. -/
inductive Finding where
  /-- A call site does not pass a parameter without a default. -/
  | missingParameter (parameter : String) (template : Path)
  /-- A call site passes a parameter that is not declared. -/
  | unknownParameter (parameter : String) (template : Path)
  /-- A call site passes a value that is not allowed. -/
  | invalidValue (parameter value : String) (allowed : List String)
  /-- A declared parameter is never used. -/
  | unusedParameter (parameter : String)
  /-- A reference goes through an alias that is not declared. -/
  | unknownAlias (name : String)
  /-- A reference leads to a path without a file. -/
  | missingTemplate (path : Path)
  deriving BEq, Repr

namespace Finding

/-- The name of a template in a message: that of its file. -/
def templateName (template : Path) : String :=
  (template.fileName?.getD template.text).shown

/-- The wording of the finding. -/
def message : Finding → String
  | missingParameter parameter template =>
    "missing required parameter '" ++ parameter ++ "' for " ++ templateName template
  | unknownParameter parameter template =>
    "'" ++ parameter ++ "' is not declared by " ++ templateName template
  | invalidValue parameter value allowed =>
    "'" ++ value ++ "' is not an allowed value for '" ++ parameter ++ "' (allowed: " ++
      ", ".intercalate allowed ++ ")"
  | unusedParameter parameter => "parameter '" ++ parameter ++ "' is never used"
  | unknownAlias name => "unknown repository alias '" ++ name ++ "'"
  | missingTemplate path => "template not found: " ++ path.shown

/-- How bad the finding is. -/
def severity : Finding → Severity
  | unusedParameter _ => .warning
  | _ => .error

end Finding

/-- A finding on a line. -/
structure Diagnostic where
  /-- The line, from zero. -/
  line : Nat
  /-- What was found there. -/
  finding : Finding
  deriving BEq, Repr

namespace Diagnostic

/-- How bad it is. -/
def severity (d : Diagnostic) : Severity :=
  d.finding.severity

/-- Its wording. -/
def message (d : Diagnostic) : String :=
  d.finding.message

/-- Lower lines come first, and on a line worse findings. -/
def comesBefore (a b : Diagnostic) : Bool :=
  a.line < b.line || (a.line = b.line && a.severity.rank ≤ b.severity.rank)

end Diagnostic

/-- Does a value fit a declaration? Empty values and expressions fit any, and so does every value if
none are listed. -/
def admitsValue (declared : ParameterDeclaration) (value : String) : Bool :=
  value.isEmpty || isRuntimeExpression value.toList || declared.allowed.isEmpty ||
    declared.allowed.contains value

/-- What is wrong with an argument of a call site. -/
def checkArgument (declared : List ParameterDeclaration) (template : Path) (p : PassedParameter) :
    Option Diagnostic :=
  match declared.find? (·.name = p.name) with
  | none => some ⟨p.line, .unknownParameter p.name template⟩
  | some d =>
    if admitsValue d p.value then none
    else some ⟨p.line, .invalidValue p.name p.value d.allowed⟩

/-- What is wrong with a call site on a line. A template that declares nothing takes anything. -/
def checkCallSite (declared : List ParameterDeclaration) (passed : SortedMap String PassedParameter)
    (line : Nat) (template : Path) : List Diagnostic :=
  let missing := declared.filter fun d => d.required && !passed.contains d.name
  (missing.map fun d => ⟨line, .missingParameter d.name template⟩) ++
    (if declared.isEmpty then [] else passed.values.filterMap (checkArgument declared template))

/-- What is wrong with a reference of a file with these lines. -/
def checkReference (lines : List (List Char)) (o : Outgoing) : Inquiry (List Diagnostic) :=
  let line := o.reference.line
  match o.target with
  | .unknownAlias name => return [⟨line, .unknownAlias name⟩]
  | .missing path _ => return [⟨line, .missingTemplate path⟩]
  | .file path _ => do
    return checkCallSite (← parametersOf path) (passedParameters lines line) line path

/-- The parameters that a text declares and never uses. -/
def unusedParameters (text : String) : List Diagnostic :=
  let used := usages text
  ((parameters text).filter fun d => !used.contains d.name).map fun d =>
    ⟨d.line, .unusedParameter d.name⟩

/-- What is wrong in a file, in the order of the lines; nothing if it cannot be read. -/
def checkFile (file : Path) : Inquiry (List Diagnostic) := do
  match ← Inquiry.text file with
  | none => return []
  | some text =>
    let found ← Inquiry.each (checkReference (linesOf text)) (← outgoing file)
    return (found.flatten ++ unusedParameters text).mergeSort Diagnostic.comesBefore

end TemplateAtlas
