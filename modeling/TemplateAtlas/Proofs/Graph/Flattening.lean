import TemplateAtlas.Graph.Tree
import TemplateAtlas.Proofs.Graph.Drawing

/-!
# Flattening trees

A tree links each node to its children. When it flattens to a graph, its links come one after the
other, those inside a child before the link to the child, and each adds its edge unless an earlier
one joins the same keys (`Tree.edges_addTo`). So every edge of the graph is that of the first link
with its keys, and takes its label from the child there (`Tree.mem_edges_toGraph_iff`).
-/

namespace TemplateAtlas

/-- A node of a tree under its parent. -/
structure Link where
  /-- What the parent stands for. -/
  parent : NodeKey
  /-- What is known at the child. -/
  child : TreeInfo

namespace Link

/-- Does the link join these keys? -/
def joins (link : Link) (source target : NodeKey) : Bool :=
  link.parent == source && link.child.key == target

/-- The edge that the link adds. -/
def edge (direction : EdgeDirection) (link : Link) : GraphEdge :=
  ⟨link.parent, link.child.key, direction, Tree.edgeLabel? link.child⟩

theorem joinsAs_edge (direction : EdgeDirection) (link other : Link) :
    (link.edge direction).joinsAs (other.edge direction) =
      link.joins other.parent other.child.key := by
  simp [edge, GraphEdge.joinsAs, joins]

end Link

namespace Tree

mutual

/-- The links inside a tree, in the order in which they add their edges. -/
def links : Tree → List Link
  | node info children => linksUnder info.key children

/-- The links inside and to the trees under a common parent. -/
def linksUnder (parent : NodeKey) : List Tree → List Link
  | [] => []
  | t :: ts => links t ++ ⟨parent, t.info⟩ :: linksUnder parent ts

end

section Keys

variable {good : NodeKey → Prop}

mutual

theorem links_good : ∀ t : Tree, (∀ info ∈ t.preorder, good info.key) →
    ∀ link ∈ t.links, good link.parent ∧ good link.child.key
  | node info children, h => by
    rw [preorder, List.forall_mem_cons] at h
    rw [links]
    exact linksUnder_good info.key h.1 children h.2

/-- A link joins keys of the tree. -/
theorem linksUnder_good (parent : NodeKey) (hparent : good parent) : ∀ ts : List Tree,
    (∀ info ∈ preorderAll ts, good info.key) → ∀ link ∈ linksUnder parent ts, good link.parent ∧
      good link.child.key
  | [], _ => by simp [linksUnder]
  | node info children :: ts, h => by
    rw [preorderAll, List.forall_mem_append] at h
    rw [linksUnder, List.forall_mem_append, List.forall_mem_cons]
    exact ⟨links_good _ h.1, ⟨hparent, h.1 info (by simp [preorder])⟩,
      linksUnder_good parent hparent ts h.2⟩

end

end Keys

theorem addInfo_edges (g : Graph) (info : TreeInfo) : (addInfo g info).edges = g.edges := by
  unfold addInfo
  split
  · exact g.addNode_edges _
  · rw [Graph.updateNode_edges, Graph.addNode_edges]

mutual

/-- A tree adds the edges of its links. -/
theorem edges_addTo (direction : EdgeDirection) : ∀ (t : Tree) (g : Graph),
    (addTo direction t g).edges =
      (t.links.map (Link.edge direction)).foldl (appendNew GraphEdge.joinsAs) g.edges
  | node info children, g => by
    rw [addTo, links, edges_addAllTo direction info.key children, addInfo_edges]

theorem edges_addAllTo (direction : EdgeDirection) (parent : NodeKey) :
    ∀ (ts : List Tree) (g : Graph),
    (addAllTo direction parent ts g).edges =
      ((linksUnder parent ts).map (Link.edge direction)).foldl (appendNew GraphEdge.joinsAs) g.edges
  | [], g => rfl
  | t :: ts, g => by
    rw [addAllTo, linksUnder, edges_addAllTo direction parent ts, Graph.addEdge_edges,
      edges_addTo direction t, List.map_append, List.foldl_append]
    rfl

end

/-- The edges of the graph of a tree are those of the first link for each pair of keys. -/
theorem mem_edges_toGraph_iff {t : Tree} {direction : EdgeDirection} {e : GraphEdge} :
    e ∈ (t.toGraph direction).edges ↔
      ∃ link, t.links.find? (·.joins e.source e.target) = some link ∧ e = link.edge direction := by
  have hfirst : e ∈ (t.toGraph direction).edges ↔
      (t.links.map (Link.edge direction)).find? (·.joinsAs e) = some e := by
    rw [toGraph, edges_addTo,
      mem_foldl_appendNew_iff GraphEdge.joinsAs_refl GraphEdge.joinsAs_trans]
    simp
  have hjoins : ∀ link : Link, (·.joinsAs (link.edge direction)) ∘ Link.edge direction =
      (·.joins (link.edge direction).source (link.edge direction).target) :=
    fun link => funext fun other => other.joinsAs_edge direction link
  rw [hfirst, List.find?_map, Option.map_eq_some_iff]
  constructor
  · rintro ⟨link, hfind, rfl⟩
    rw [hjoins] at hfind
    exact ⟨link, hfind, rfl⟩
  · rintro ⟨link, hfind, rfl⟩
    refine ⟨link, ?_, rfl⟩
    rwa [hjoins]

end Tree

end TemplateAtlas
