import TemplateAtlas.Inquiry
import TemplateAtlas.Template.Reference
import TemplateAtlas.Template.Repository

/-!
# Resolution of references

A reference is a path, possibly followed by `@` and the alias of another repository. A path that
opens with a slash is read from the root of the repository, any other from the directory of the
referring file. A reference through an alias is read from the checkout of that repository, which
lies beside the checkout of the referring file. Whether the target exists plays no part.
-/

namespace TemplateAtlas

open TemplateAtlas.Text TemplateAtlas.Template

/-- Where a reference leads. -/
inductive Resolved where
  /-- To a path, in the repository with the given short name if an alias leads there. -/
  | path (target : Path) (repository? : Option String)
  /-- Nowhere, since the alias is not declared. -/
  | unknownAlias (name : String)
  deriving Repr, Inhabited

/-- The path and the alias of a reference. The last `@` opens the alias. -/
def splitAlias (raw : String) : String × Option String :=
  match splitLast? '@' raw.toList with
  | some (path, name) => (String.ofList path, some (String.ofList (trim name)))
  | none => (raw, none)

/-- The alias of a reference to another repository. -/
def foreignAlias? (raw : String) : Option String :=
  (splitAlias raw).2.filter (· != selfAlias)

/-- The text without the slashes that open it. -/
def dropSlashes (path : List Char) : List Char :=
  path.dropWhile (· = '/')

/-- Where a path without an alias leads from a file. -/
def resolveLocal (path : List Char) (file : Path) : Inquiry Path :=
  if path.head? = some '/' then do
    let root ← Inquiry.root file
    return (root.child (String.ofList (dropSlashes path))).normalize
  else return (file.directory.child (String.ofList path)).normalize

/-- Where a path in the repository with a short name leads from a file: into the checkout beside
that of the file. -/
def resolveForeign (path : List Char) (shortName : String) (file : Path) : Inquiry Path := do
  let root ← Inquiry.root file
  let siblings := root.parent?.getD root
  return ((siblings.child shortName).child (String.ofList (dropSlashes path))).normalize

/-- Where a reference in a file leads. A blank reference leads nowhere at all. -/
def resolve (raw : String) (file : Path) (aliases : AliasTable) : Inquiry (Option Resolved) :=
  let raw := trim raw.toList
  if raw.isEmpty then return none
  else
    let (path, alias?) := splitAlias (String.ofList raw)
    let path := trim path.toList
    match alias?.filter (· != selfAlias) with
    | none => return some (.path (← resolveLocal path file) none)
    | some name =>
      match aliases.find? name with
      | none => return some (.unknownAlias name)
      | some shortName =>
        return some (.path (← resolveForeign path shortName file) (some shortName))

end TemplateAtlas
