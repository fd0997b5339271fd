import TemplateAtlas.Graph.Basic

/-!
# Trees

What a walk from a file finds, as a tree, and how a tree flattens to a graph: one node for each key,
in the order of first occurrence, and one edge for each pair of a node and a child.
-/

namespace TemplateAtlas

/-- What is known at a node of a tree. -/
structure TreeInfo where
  /-- What the node stands for. -/
  key : NodeKey
  /-- Its role. -/
  kind : NodeKind
  /-- The text to show. -/
  label : String
  /-- The line of the reference that links the node to its parent: in the parent's file for a tree
  of references, in the node's own file for a tree of callers. -/
  line? : Option Nat
  /-- The alias of that reference. -/
  alias? : Option String
  /-- Would following the node come back to a file on the way to it? -/
  cycle : Bool
  /-- The number of parameters that the file declares. -/
  parameterCount : Nat
  /-- The number of those without a default. -/
  requiredCount : Nat
  deriving BEq, Repr, Inhabited

/-- What is known at a node before its file is looked at. -/
def TreeInfo.new (key : NodeKey) (kind : NodeKind) (line? : Option Nat) (alias? : Option String) :
    TreeInfo :=
  ⟨key, kind, key.label, line?, alias?, false, 0, 0⟩

/-- A tree. -/
inductive Tree where
  /-- A node with its children. -/
  | node (info : TreeInfo) (children : List Tree)
  deriving BEq, Repr, Inhabited

namespace Tree

/-- What is known at the top. -/
def info : Tree → TreeInfo
  | node info _ => info

/-- The trees under the top. -/
def children : Tree → List Tree
  | node _ children => children

/-- A tree of one node. -/
def leaf (info : TreeInfo) : Tree :=
  node info []

mutual

/-- All nodes, each before those under it. -/
def preorder : Tree → List TreeInfo
  | node info children => info :: preorderAll children

/-- All nodes of several trees. -/
def preorderAll : List Tree → List TreeInfo
  | [] => []
  | t :: ts => preorder t ++ preorderAll ts

end

mutual

/-- The number of levels under the top. -/
def height : Tree → Nat
  | node _ children => heightAll children

/-- The number of levels that several trees make under a common parent. -/
def heightAll : List Tree → Nat
  | [] => 0
  | t :: ts => max (height t + 1) (heightAll ts)

end

/-- The number of nodes that mark a cycle. -/
def countCycles (t : Tree) : Nat :=
  t.preorder.countP (·.cycle)

/-- Does some node stand for the path? -/
def containsPath (t : Tree) (path : Path) : Bool :=
  t.preorder.any fun info => info.key.path? == some path

/-- The text at the edge to a node. -/
def edgeLabel? (child : TreeInfo) : Option String :=
  match child.alias?, child.cycle with
  | some name, true => some ("@" ++ name ++ " (cycle)")
  | some name, false => some ("@" ++ name)
  | none, true => some "cycle"
  | none, false => none

/-- The graph with a node of a tree. A node that marks no cycle states the parameter counts of its
key. -/
def addInfo (g : Graph) (info : TreeInfo) : Graph :=
  let g := g.addNode (.new info.key info.kind)
  if info.cycle then g
  else g.updateNode info.key fun n =>
    { n with parameterCount := info.parameterCount, requiredCount := info.requiredCount }

mutual

/-- The graph with the nodes and edges of a tree. -/
def addTo (direction : EdgeDirection) : Tree → Graph → Graph
  | node info children, g => addAllTo direction info.key children (addInfo g info)

/-- The graph with the nodes and edges of trees under a common parent. The edge to a tree comes
after the edges inside it. -/
def addAllTo (direction : EdgeDirection) (parent : NodeKey) : List Tree → Graph → Graph
  | [], g => g
  | t :: ts, g =>
    let g := (addTo direction t g).addEdge ⟨parent, t.info.key, direction, edgeLabel? t.info⟩
    addAllTo direction parent ts g

end

/-- The graph of a tree. Its edges run from parents to children. -/
def toGraph (direction : EdgeDirection) (t : Tree) : Graph :=
  addTo direction t {}

end Tree

end TemplateAtlas
