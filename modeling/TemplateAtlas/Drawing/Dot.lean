import TemplateAtlas.Graph.Basic
import TemplateAtlas.SortedMap

/-!
# Graphs as DOT

The text of a graph in the language of Graphviz: a header, the nodes in clusters by repository or
one after the other, the edges, and a legend. All texts of the graph stand in quotes, with
backslashes and quotes escaped, so that none of them can end a statement.
-/

namespace TemplateAtlas

open TemplateAtlas.Text

/-- The colours to use. -/
inductive DotTheme where
  /-- For a light background. -/
  | light
  /-- For a dark background. -/
  | dark
  deriving DecidableEq, Repr, Inhabited

/-- The direction of the ranks. -/
inductive RankDirection where
  /-- From left to right. -/
  | leftRight
  /-- From top to bottom. -/
  | topBottom
  deriving DecidableEq, Repr, Inhabited

/-- The shape of the edges. -/
inductive EdgeShape where
  /-- Curves. -/
  | curved
  /-- Lines along the axes. -/
  | ortho
  /-- Straight segments. -/
  | polyline
  deriving DecidableEq, Repr, Inhabited

/-- How a graph is drawn. -/
structure DotOptions where
  /-- Are nodes grouped by repository? -/
  clusters : Bool := true
  /-- Is there a legend? -/
  legend : Bool := true
  /-- The colours. -/
  theme : DotTheme := .light
  /-- The direction of the ranks. -/
  ranks : RankDirection := .leftRight
  /-- The shape of the edges. -/
  edges : EdgeShape := .curved
  /-- Are the corners of nodes round? -/
  rounded : Bool := true
  deriving DecidableEq, Repr, Inhabited

namespace Dot

/-- A text inside quotes: backslashes are escaped, and then quotes. -/
def escape (text : String) : String :=
  String.ofList (replaceAll ['\x22'] ['\\', '\x22'] (replaceAll ['\\'] ['\\', '\\'] text.toList))

/-- A text in quotes. -/
def quoted (text : String) : String :=
  "\"" ++ text ++ "\""

/-- The quoted identifier of a node. -/
def nodeId (key : NodeKey) : String :=
  quoted (escape key.id)

/-- The name of a direction. -/
def rankName : RankDirection → String
  | .leftRight => "LR"
  | .topBottom => "TB"

/-- The name of a shape of edges. -/
def edgeShapeName : EdgeShape → String
  | .curved => "curved"
  | .ortho => "ortho"
  | .polyline => "polyline"

/-- The colour that fills the nodes of a kind. -/
def fillColour : DotTheme → NodeKind → String
  | .light, .pipeline => "#e0f3ff"
  | .light, .template => "#e8ffe0"
  | .light, .external => "#f0e0ff"
  | .light, .missing => "#ffe0e0"
  | .light, .unknownAlias => "#ffffe0"
  | .dark, .pipeline => "#124559"
  | .dark, .template => "#0b6e4f"
  | .dark, .external => "#3c2a5a"
  | .dark, .missing => "#6a1e1e"
  | .dark, .unknownAlias => "#6b6b00"

/-- The shape of the nodes of a kind. -/
def nodeShape : NodeKind → String
  | .pipeline => "component"
  | .template => "box"
  | .external => "box3d"
  | .missing => "note"
  | .unknownAlias => "octagon"

/-- A setting with its quoted value. -/
def setting (name value : String) : String :=
  name ++ "=" ++ quoted value

/-- A list of settings. -/
def settings (values : List (String × String)) : String :=
  "[" ++ ", ".intercalate (values.map fun (name, value) => setting name value) ++ "]"

/-- The lines before the first node. -/
def header (options : DotOptions) : List String :=
  ["digraph Pipelines",
    "\x7b",
    "  rankdir=" ++ rankName options.ranks ++ ";",
    "  graph [fontname=Helvetica, splines=" ++ edgeShapeName options.edges ++ "] ;",
    "  node [shape=box, fontsize=10, " ++
      setting "style" (if options.rounded then "filled,rounded" else "filled") ++ "] ;",
    "  edge [fontname=Helvetica, fontsize=9];"]

/-- The text shown in a node: its label, and on a second line the counts of its parameters. -/
def nodeLabel (node : GraphNode) : String :=
  escape node.label ++
    (if 0 < node.parameterCount then
      "\\n" ++ toString node.parameterCount ++ " params (" ++
        toString node.requiredCount ++ " required)"
      else "")

/-- The statement of a node. -/
def nodeLine (theme : DotTheme) (indent : String) (node : GraphNode) : String :=
  indent ++ nodeId node.key ++ " " ++ settings
    [("label", nodeLabel node), ("fillcolor", fillColour theme node.kind),
      ("shape", nodeShape node.kind),
      ("tooltip", escape node.key.description)] ++ ";"

/-- The cluster of the files on the workspace's own side. -/
def ownCluster : String :=
  "self"

/-- The cluster of the references through aliases that are not declared. -/
def unresolvedCluster : String :=
  "unresolved"

/-- The cluster of a node: the repository that an alias leads to, if one does. -/
def clusterOf (node : GraphNode) : String :=
  match node.kind with
  | .unknownAlias => unresolvedCluster
  | _ => node.repository?.getD ownCluster

/-- The nodes by their clusters, in the order of the clusters' names. -/
def clustersOf (nodes : List GraphNode) : SortedMap String (List GraphNode) :=
  nodes.foldl (fun groups node =>
    groups.insert (clusterOf node) ((groups.find? (clusterOf node)).getD [] ++ [node])) .empty

/-- The lines of a cluster. -/
def clusterLines (theme : DotTheme) (name : String) (nodes : List GraphNode) : List String :=
  ["  subgraph " ++ quoted ("cluster_" ++ escape name) ++ " \x7b",
    "    " ++ setting "label" (escape name) ++ ";",
    "    color=lightgrey;"] ++
    nodes.map (nodeLine theme "    ") ++ ["  \x7d"]

/-- The lines of all nodes. -/
def nodeLines (options : DotOptions) (nodes : List GraphNode) : List String :=
  if options.clusters then
    (clustersOf nodes).entries.flatMap fun (name, nodes) => clusterLines options.theme name nodes
  else nodes.map (nodeLine options.theme "  ")

/-- How an edge is drawn. -/
structure EdgeStyle where
  /-- The colour. -/
  colour : String
  /-- The line. -/
  line : String
  deriving DecidableEq, Repr

/-- Edges to broken references. -/
def EdgeStyle.broken : EdgeStyle :=
  ⟨"#d62728", "dashed"⟩

/-- Edges that close a cycle. -/
def EdgeStyle.cycle : EdgeStyle :=
  ⟨"#ff7f0e", "dotted"⟩

/-- All other edges. -/
def EdgeStyle.plain : EdgeStyle :=
  ⟨"#555555", "solid"⟩

/-- Does the text at an edge say that it closes a cycle? -/
def saysCycle (label : String) : Bool :=
  "cycle".toList.isSuffixOf label.toList

/-- How an edge of a graph is drawn. -/
def edgeStyle (g : Graph) (edge : GraphEdge) : EdgeStyle :=
  if g.nodes.any fun node => node.kind.isBroken && node.key == edge.target then .broken
  else if edge.label?.any saysCycle then .cycle
  else .plain

/-- The statement of an edge. -/
def edgeLine (g : Graph) (edge : GraphEdge) : String :=
  let style := edgeStyle g edge
  "  " ++ nodeId edge.source ++ " -> " ++ nodeId edge.target ++ " " ++ settings
    [("label", escape (edge.label?.getD "")), ("color", style.colour), ("style", style.line)] ++ ";"

/-- The node that explains a kind. -/
def legendLine (theme : DotTheme) (kind : NodeKind) : String :=
  "    " ++ quoted ("legend_" ++ kind.shortName) ++ " " ++
    settings
      [("label", kind.shortName), ("fillcolor", fillColour theme kind), ("shape", nodeShape kind)]
    ++ ";"

/-- The lines of the legend. -/
def legendLines (theme : DotTheme) : List String :=
  ["  subgraph cluster_legend \x7b",
    "    label=\"Legend\";",
    "    color=grey;"] ++
    NodeKind.all.map (legendLine theme) ++ ["  \x7d"]

/-- The graph as text. -/
def render (g : Graph) (options : DotOptions) : String :=
  let lines := header options ++ nodeLines options g.nodes ++ g.edges.map (edgeLine g) ++
    (if options.legend then legendLines options.theme else []) ++ ["\x7d"]
  String.join (lines.map (· ++ "\n"))

end Dot

end TemplateAtlas
