import TemplateAtlas.Graph.Tree
import TemplateAtlas.Json
import TemplateAtlas.Report.Diagnostic
import TemplateAtlas.Report.Hubs
import TemplateAtlas.Report.Listing
import TemplateAtlas.Template.Parameter

/-!
# Answers as documents

The JSON form of graphs, trees, declarations, listings and findings.
-/

namespace TemplateAtlas

open TemplateAtlas.Template

/-- A path as its text. -/
def Path.document (p : Path) : Json :=
  .raw p.text

/-- The form of a node's key. -/
def NodeKey.document : NodeKey → Json
  | file path => .object [("type", .text "real"), ("path", path.document)]
  | missing path => .object [("type", .text "missing"), ("path", path.document)]
  | unknownAlias name raw =>
    .object [("type", .text "unknown_alias"), ("alias", .text name), ("raw_ref", .text raw)]

/-- The long name of a kind. -/
def NodeKind.longName : NodeKind → String
  | pipeline => "pipeline_root"
  | template => "local_template"
  | external => "external_template"
  | missing => "missing"
  | unknownAlias => "unknown_alias"

/-- The form of a graph's node. -/
def GraphNode.document (n : GraphNode) : Json :=
  .object
    [("key", n.key.document), ("kind", .text n.kind.longName), ("label", .text n.label),
      ("repository", .optionalText n.repository?), ("parameter_count", .number n.parameterCount),
      ("required_parameter_count", .number n.requiredCount)]

/-- The name of a direction. -/
def EdgeDirection.name : EdgeDirection → String
  | toTemplates => "downstream"
  | toCallers => "upstream"
  | undirected => "undirected"

/-- The form of a graph's edge. -/
def GraphEdge.document (e : GraphEdge) : Json :=
  .object
    [("source", e.source.document), ("target", e.target.document),
      ("direction", .text e.direction.name),
      ("label", .optionalText e.label?)]

/-- The form of a graph. -/
def Graph.document (g : Graph) : Json :=
  .object [("nodes", .list (g.nodes.map GraphNode.document)),
    ("edges", .list (g.edges.map GraphEdge.document))]

namespace Tree

/-- The form of a tree's node, given the forms of the trees under it. -/
def documentOf (info : TreeInfo) (children : List Json) : Json :=
  .object
    [("key", info.key.document), ("kind", .text info.kind.longName), ("label", .text info.label),
      ("line", .optionalNumber info.line?), ("alias", .optionalText info.alias?),
      ("cycle", .bool info.cycle),
      ("parameter_count", .number info.parameterCount),
      ("required_parameter_count", .number info.requiredCount), ("children", .list children)]

mutual

/-- The form of a tree. -/
def document : Tree → Json
  | node info children => documentOf info (documents children)

/-- The forms of several trees. -/
def documents : List Tree → List Json
  | [] => []
  | t :: ts => document t :: documents ts

end

end Tree

/-- The form of a declared parameter. -/
def parameterDocument (d : ParameterDeclaration) : Json :=
  .object
    [("name", .text d.name), ("type", .text d.type), ("default_value", .optionalText d.default?),
      ("required", .bool d.required), ("declaration_line", .number d.line),
      ("display_name", .optionalText d.displayName?), ("allowed_values", .texts d.allowed)]

/-- The members of a listing's row that tell what became of the reference. -/
def ReferenceStatus.members : ReferenceStatus → List (String × Json)
  | resolved path repository? =>
    [("status", .text "resolved"), ("path", path.document),
      ("repository", .optionalText repository?)]
  | missing path repository? =>
    [("status", .text "missing"), ("path", path.document),
      ("repository", .optionalText repository?)]
  | unknownAlias name => [("status", .text "unknown_alias"), ("alias", .text name)]
  | runtimeExpression => [("status", .text "runtime_expression")]

/-- The form of a listing's row. -/
def ReferenceRow.document (r : ReferenceRow) : Json :=
  .object ([("line", .number r.line), ("raw_ref", .text r.raw)] ++ r.status.members)

/-- The members of a diagnostic that tell what was found. -/
def Finding.members : Finding → List (String × Json)
  | missingParameter parameter template =>
    [("kind", .text "missing_required_parameter"), ("parameter", .text parameter),
      ("template", template.document)]
  | unknownParameter parameter template =>
    [("kind", .text "unknown_parameter"), ("parameter", .text parameter),
      ("template", template.document)]
  | invalidValue parameter value allowed =>
    [("kind", .text "invalid_parameter_value"), ("parameter", .text parameter),
      ("value", .text value),
      ("allowed", .texts allowed)]
  | unusedParameter parameter =>
    [("kind", .text "unused_parameter"), ("parameter", .text parameter)]
  | unknownAlias name => [("kind", .text "unknown_alias"), ("alias", .text name)]
  | missingTemplate path => [("kind", .text "missing_template"), ("path", path.document)]

/-- The form of a diagnostic. -/
def Diagnostic.document (d : Diagnostic) : Json :=
  .object
    ([("line", .number d.line), ("severity", .text d.severity.name)] ++ d.finding.members ++
      [("message", .text d.message)])

/-- The form of a hub, with its path as it is to be shown. -/
def Hub.document (h : Hub) (shown : Path → String) : Json :=
  .object [("file", .text (shown h.file)), ("in", .number h.callers), ("out", .number h.targets)]

end TemplateAtlas
