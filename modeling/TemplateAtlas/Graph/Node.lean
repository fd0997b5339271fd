import TemplateAtlas.Path.Basic

/-!
# Nodes

A node of a graph stands for an existing file, for a file that is referred to and absent, or for a
reference through an alias that is not declared. References that break in the same way share a node.
-/

namespace TemplateAtlas

/-- What a node stands for. -/
inductive NodeKey where
  /-- An existing file. -/
  | file (path : Path)
  /-- An absent file that is referred to. -/
  | missing (path : Path)
  /-- A reference through an alias that is not declared. -/
  | unknownAlias (name raw : String)
  deriving BEq, Repr, Inhabited

namespace NodeKey

/-- The path of the file, absent or not. -/
def path? : NodeKey → Option Path
  | file path => some path
  | missing path => some path
  | unknownAlias .. => none

/-- The text that identifies the node. -/
def id : NodeKey → String
  | file path => "file:" ++ path.shown
  | missing path => "missing:" ++ path.shown
  | unknownAlias name raw => "alias:" ++ name ++ ":" ++ raw

/-- The text to show for the node: the name of its file, or the reference. -/
def label : NodeKey → String
  | file path => (path.fileName?.getD path.text).shown
  | missing path => (path.fileName?.getD path.text).shown
  | unknownAlias _ raw => raw

/-- The text that tells the node in full: the path, or the reference. -/
def description : NodeKey → String
  | file path => path.shown
  | missing path => path.shown
  | unknownAlias _ raw => raw

end NodeKey

/-- The role of a node. -/
inductive NodeKind where
  /-- A pipeline's entry file. -/
  | pipeline
  /-- A template of the same repository. -/
  | template
  /-- A template of another repository. -/
  | external
  /-- An absent file. -/
  | missing
  /-- A reference through an alias that is not declared. -/
  | unknownAlias
  deriving DecidableEq, Repr, Inhabited

namespace NodeKind

/-- The short name. -/
def shortName : NodeKind → String
  | pipeline => "pipeline"
  | template => "template"
  | external => "external"
  | missing => "missing"
  | unknownAlias => "unknown-alias"

/-- All kinds, in the order of a legend. -/
def all : List NodeKind :=
  [pipeline, template, external, missing, unknownAlias]

/-- Does the kind mark a broken reference? -/
def isBroken : NodeKind → Bool
  | missing => true
  | unknownAlias => true
  | _ => false

end NodeKind

end TemplateAtlas
