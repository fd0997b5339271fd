import TemplateAtlas.Graph.Node

/-!
# Graphs of references

A graph lists its nodes and edges in the order in which they were found. There is one node for each
key, and one edge for each pair of keys and direction.
-/

namespace TemplateAtlas

/-- A node of a graph. -/
structure GraphNode where
  /-- What it stands for. -/
  key : NodeKey
  /-- Its role. -/
  kind : NodeKind
  /-- The text to show. -/
  label : String
  /-- The short name of the repository that an alias leads to. -/
  repository? : Option String
  /-- The number of parameters that the file declares. -/
  parameterCount : Nat
  /-- The number of those without a default. -/
  requiredCount : Nat
  deriving BEq, Repr, Inhabited

/-- The node of a key, before anything else is known of it. -/
def GraphNode.new (key : NodeKey) (kind : NodeKind) : GraphNode :=
  ⟨key, kind, key.label, none, 0, 0⟩

/-- How an edge was found. -/
inductive EdgeDirection where
  /-- From a file to what it refers to. -/
  | toTemplates
  /-- From a file to what refers to it. -/
  | toCallers
  /-- By looking at the whole workspace. -/
  | undirected
  deriving DecidableEq, Repr, Inhabited

/-- An edge of a graph. -/
structure GraphEdge where
  /-- Where it starts. -/
  source : NodeKey
  /-- Where it ends. -/
  target : NodeKey
  /-- How it was found. -/
  direction : EdgeDirection
  /-- The text to show. -/
  label? : Option String
  deriving BEq, Repr, Inhabited

/-- Do two edges connect the same nodes in the same direction? -/
def GraphEdge.joinsAs (e f : GraphEdge) : Bool :=
  e.source == f.source && e.target == f.target && e.direction == f.direction

/-- A graph. -/
structure Graph where
  /-- The nodes, in the order in which they were found. -/
  nodes : List GraphNode := []
  /-- The edges, in the order in which they were found. -/
  edges : List GraphEdge := []
  deriving BEq, Repr, Inhabited

namespace Graph

/-- The node with a key. -/
def node? (g : Graph) (key : NodeKey) : Option GraphNode :=
  g.nodes.find? (·.key == key)

/-- The node of an existing file. -/
def nodeForPath? (g : Graph) (path : Path) : Option GraphNode :=
  g.node? (.file path)

/-- The edges that end at a key. -/
def edgesInto (g : Graph) (key : NodeKey) : List GraphEdge :=
  g.edges.filter (·.target == key)

/-- The edges that start at a key. -/
def edgesFrom (g : Graph) (key : NodeKey) : List GraphEdge :=
  g.edges.filter (·.source == key)

/-- The nodes of a kind. -/
def nodesOfKind (g : Graph) (kind : NodeKind) : List GraphNode :=
  g.nodes.filter (·.kind == kind)

/-- The graph with a node, unless its key is there. -/
def addNode (g : Graph) (node : GraphNode) : Graph :=
  if g.nodes.any (·.key == node.key) then g else { g with nodes := g.nodes ++ [node] }

/-- The graph with the node of a key changed. -/
def updateNode (g : Graph) (key : NodeKey) (change : GraphNode → GraphNode) : Graph :=
  { g with nodes := g.nodes.map fun n => if n.key == key then change n else n }

/-- The graph with an edge, unless one joins the same nodes already. -/
def addEdge (g : Graph) (edge : GraphEdge) : Graph :=
  if g.edges.any (·.joinsAs edge) then g else { g with edges := g.edges ++ [edge] }

end Graph

end TemplateAtlas
