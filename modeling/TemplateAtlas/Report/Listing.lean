import TemplateAtlas.Graph.Outgoing

/-!
# The listing of a file's references

Every reference of a file with what became of it, in the order of the lines. References with
expression syntax are listed too, although they cannot be followed.
-/

namespace TemplateAtlas

open TemplateAtlas.Template

/-- What became of a reference. -/
inductive ReferenceStatus where
  /-- It leads to a file. -/
  | resolved (path : Path) (repository? : Option String)
  /-- It leads to a path without a file. -/
  | missing (path : Path) (repository? : Option String)
  /-- Its alias is not declared. -/
  | unknownAlias (name : String)
  /-- It is known only when the pipeline runs. -/
  | runtimeExpression
  deriving BEq, Repr

/-- The status of a reference with this target. -/
def Target.status : Target → ReferenceStatus
  | file path repository? => .resolved path repository?
  | missing path repository? => .missing path repository?
  | unknownAlias name => .unknownAlias name

/-- A row of the listing. -/
structure ReferenceRow where
  /-- The line of the reference. -/
  line : Nat
  /-- The reference as written. -/
  raw : String
  /-- What became of it. -/
  status : ReferenceStatus
  deriving BEq, Repr

/-- The row of a reference that can be followed. -/
def Outgoing.row (o : Outgoing) : ReferenceRow :=
  ⟨o.reference.line, o.reference.raw, o.target.status⟩

/-- The rows of the references with expression syntax. -/
def runtimeRows (text : String) : List ReferenceRow :=
  ((references text).filter (·.isRuntimeExpression)).map fun r =>
    ⟨r.line, r.raw, .runtimeExpression⟩

/-- The rows of a file; none if it cannot be read. -/
def listReferences (file : Path) : Inquiry (List ReferenceRow) := do
  match ← Inquiry.text file with
  | none => return []
  | some text =>
    let rows := runtimeRows text ++ (← outgoing file).map Outgoing.row
    return rows.mergeSort fun a b => a.line ≤ b.line

end TemplateAtlas
