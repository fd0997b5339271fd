import TemplateAtlas.Graph.Basic
import TemplateAtlas.Graph.Resolution
import TemplateAtlas.Template.Parameter

/-!
# What a file refers to

The references of a file that can be followed, each with its target, and what is known of a single
file: its kind and the number of its parameters.
-/

namespace TemplateAtlas

open TemplateAtlas.Template

/-- Where a reference ends. -/
inductive Target where
  /-- At an existing file. -/
  | file (path : Path) (repository? : Option String)
  /-- At an absent file. -/
  | missing (path : Path) (repository? : Option String)
  /-- Nowhere, since the alias is not declared. -/
  | unknownAlias (name : String)
  deriving BEq, Repr, Inhabited

/-- The path at which a reference ends. -/
def Target.path? : Target → Option Path
  | file path _ => some path
  | missing path _ => some path
  | unknownAlias _ => none

/-- The repository that an alias leads to. -/
def Target.repository? : Target → Option String
  | file _ repository? => repository?
  | missing _ repository? => repository?
  | unknownAlias _ => none

/-- A reference of a file with its target. -/
structure Outgoing where
  /-- The reference. -/
  reference : TemplateReference
  /-- The alias of another repository. -/
  alias? : Option String
  /-- Where it ends. -/
  target : Target
  deriving BEq, Repr

namespace Outgoing

/-- The node at which the reference ends. -/
def key (o : Outgoing) : NodeKey :=
  match o.target with
  | .file path _ => .file path
  | .missing path _ => .missing path
  | .unknownAlias name => .unknownAlias name o.reference.raw

/-- The text to show at the edge. -/
def edgeLabel? (o : Outgoing) : Option String :=
  o.alias?.map ("@" ++ ·)

end Outgoing

/-- The target of a resolved reference. -/
def targetOf : Resolved → Inquiry Target
  | .unknownAlias name => return .unknownAlias name
  | .path path repository? => do
    if ← Inquiry.file path then return .file path repository?
    else return .missing path repository?

/-- A reference of a file with its target, if it can be followed. -/
def outgoingOf (file : Path) (aliases : AliasTable) (r : TemplateReference) :
    Inquiry (Option Outgoing) := do
  if r.isRuntimeExpression then return none
  match ← resolve r.raw file aliases with
  | none => return none
  | some resolved => return some ⟨r, foreignAlias? r.raw, ← targetOf resolved⟩

/-- The references in a text of a file that can be followed, in the order of their lines. -/
def outgoingIn (file : Path) (text : String) : Inquiry (List Outgoing) := do
  let found ← Inquiry.each (outgoingOf file (repositoryAliases text)) (references text)
  return found.filterMap id

/-- The references of a file that can be followed; none at all if the file cannot be read. -/
def outgoing? (file : Path) : Inquiry (Option (List Outgoing)) := do
  match ← Inquiry.text file with
  | none => return none
  | some text => return some (← outgoingIn file text)

/-- The references of a file that can be followed. -/
def outgoing (file : Path) : Inquiry (List Outgoing) := do
  return (← outgoing? file).getD []

/-- The kind that a text gives to its file. -/
def kindOfText (text? : Option String) : NodeKind :=
  if text?.any isPipelineRoot then .pipeline else .template

/-- The kind of a file. -/
def classify (file : Path) : Inquiry NodeKind := do
  return kindOfText (← Inquiry.text file)

/-- The number of parameters that a text declares, and of those without a default. -/
def countsOfText (text? : Option String) : Nat × Nat :=
  match text? with
  | none => (0, 0)
  | some text => ((parameters text).length, ((parameters text).filter (·.required)).length)

/-- The number of parameters that a file declares, and of those without a default. -/
def parameterCounts (file : Path) : Inquiry (Nat × Nat) := do
  return countsOfText (← Inquiry.text file)

/-- The parameters that a file declares. -/
def parametersOf (file : Path) : Inquiry (List ParameterDeclaration) := do
  return ((← Inquiry.text file).map parameters).getD []

end TemplateAtlas
