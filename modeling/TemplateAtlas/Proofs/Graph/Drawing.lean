import TemplateAtlas.Graph.Workspace
import TemplateAtlas.Proofs.Path.Order

/-!
# Drawing files and their references

The graph of a list of files is collected in two passes: the files themselves, and then the ends of
their references, one after the other, with the kind of a node raised on the way. Both nodes and
edges are collected without repetition (`appendNew`), so of what is the same the first is kept
(`mem_foldl_appendNew_iff`). What references make of the kind of a node does not depend on their
order (`Graph.kind?_foldl_addTarget`), and nodes and edges are collected apart from each other
(`Graph.foldl_foldl_addReference`).
-/

namespace TemplateAtlas

open TemplateAtlas.Template

/-! ### Keys -/

namespace NodeKey

@[simp] theorem file_beq_file (p q : Path) : (file p == file q) = (p == q) := rfl

@[simp] theorem missing_beq_missing (p q : Path) : (missing p == missing q) = (p == q) := rfl

@[simp] theorem unknownAlias_beq_unknownAlias (a r b s : String) :
    (unknownAlias a r == unknownAlias b s) = (a == b && r == s) := rfl

@[simp] theorem file_beq_missing (p q : Path) : (file p == missing q) = false := rfl

@[simp] theorem file_beq_unknownAlias (p : Path) (a r : String) :
    (file p == unknownAlias a r) = false :=
  rfl

@[simp] theorem missing_beq_file (p q : Path) : (missing p == file q) = false := rfl

@[simp] theorem missing_beq_unknownAlias (p : Path) (a r : String) :
    (missing p == unknownAlias a r) = false :=
  rfl

@[simp] theorem unknownAlias_beq_file (p : Path) (a r : String) :
    (unknownAlias a r == file p) = false :=
  rfl

@[simp] theorem unknownAlias_beq_missing (p : Path) (a r : String) :
    (unknownAlias a r == missing p) = false :=
  rfl

instance : EquivBEq NodeKey where
  rfl {k} := by cases k <;> simp
  symm {k l} h := by
    cases k <;> cases l <;> simp_all [BEq.comm]
  trans {k l m} h h' := by
    cases k <;> cases l <;> simp at h <;> cases m <;> simp at h' ⊢
    · exact BEq.trans h h'
    · exact BEq.trans h h'
    · exact ⟨h.1.trans h'.1, h.2.trans h'.2⟩

/-- The kind of a node of which nothing but its key is known. -/
def baseKind : NodeKey → NodeKind
  | file _ => .template
  | missing _ => .missing
  | unknownAlias .. => .unknownAlias

theorem baseKind_congr {k l : NodeKey} (h : (k == l) = true) : k.baseKind = l.baseKind := by
  cases k <;> cases l <;> simp at h <;> rfl

theorem path?_congr {k l : NodeKey} (h : (k == l) = true) (t : Path) :
    (k.path? == some t) = (l.path? == some t) := by
  cases k <;> cases l <;> simp at h
  · exact BEq.congr_left h
  · exact BEq.congr_left h
  · rfl

end NodeKey

/-! ### Collecting without repetition -/

section Collect

variable {α : Type} {same : α → α → Bool}

/-- The list with one more element at its end, unless it holds the same already. -/
def appendNew (same : α → α → Bool) (kept : List α) (a : α) : List α :=
  if kept.any (same · a) then kept else kept ++ [a]

/-- What is collected are differing elements. -/
theorem pairwise_foldl_appendNew {kept : List α} (h : kept.Pairwise fun a b => same a b = false)
    (as : List α) : (as.foldl (appendNew same) kept).Pairwise fun a b => same a b = false := by
  induction as generalizing kept with
  | nil => exact h
  | cons a as ih =>
    refine ih ?_
    unfold appendNew
    split
    · exact h
    next hnew =>
      rw [List.pairwise_append]
      refine ⟨h, List.pairwise_singleton _ _, fun b hb c hc => ?_⟩
      rw [List.mem_singleton.1 hc]
      simpa using fun hsame => hnew (List.any_eq_true.2 ⟨b, hb, hsame⟩)

/-- Elements that differ are all collected. -/
theorem foldl_appendNew_eq_append {kept as : List α}
    (h : (kept ++ as).Pairwise fun a b => same a b = false) :
    as.foldl (appendNew same) kept = kept ++ as := by
  induction as generalizing kept with
  | nil => simp
  | cons a as ih =>
    have hnew : kept.any (same · a) = false := by
      rw [List.any_eq_false]
      intro b hb
      simpa using (List.pairwise_append.1 h).2.2 b hb a (by simp)
    rw [List.foldl_cons, appendNew, hnew, if_neg (by simp), ih (by simpa using h),
      List.append_assoc, List.singleton_append]

/-- What is collected are the elements that come first among the same. -/
theorem mem_foldl_appendNew_iff (hrefl : ∀ a, same a a = true)
    (htrans : ∀ a b c, same a b = true → same b c = true → same a c = true) {kept as : List α}
    {a : α} :
    a ∈ as.foldl (appendNew same) kept ↔
      a ∈ kept ∨ (kept.any (same · a) = false ∧ as.find? (same · a) = some a) := by
  induction as generalizing kept with
  | nil => simp
  | cons b as ih =>
    rw [List.foldl_cons, ih, List.find?_cons]
    unfold appendNew
    by_cases hkept : kept.any (same · b) = true
    · rw [if_pos hkept]
      obtain ⟨k, hk, hkb⟩ := List.any_eq_true.1 hkept
      refine or_congr_right (and_congr_right fun hfresh => ?_)
      have hba : same b a = false := Bool.eq_false_iff.2 fun hba =>
        (List.any_eq_false.1 hfresh k hk) (htrans k b a hkb hba)
      rw [hba]
    · rw [if_neg hkept, List.any_append, List.mem_append, List.mem_singleton, List.any_cons,
        List.any_nil, Bool.or_false, Bool.or_eq_false_iff]
      cases hba : same b a with
      | false =>
        have hne : a ≠ b := by
          rintro rfl
          rw [hrefl] at hba
          cases hba
        simp [hne]
      | true =>
        by_cases heq : a = b
        · subst heq
          simp [hkept]
        · simp [heq, Ne.symm heq]

end Collect

/-! ### Nodes -/

/-- The kind of a node after a reference through an alias or without one. -/
def NodeKind.raised (external : Bool) (kind : NodeKind) : NodeKind :=
  if external && kind == .template then .external else kind

theorem NodeKind.raised_raised (a b : Bool) (kind : NodeKind) :
    (kind.raised a).raised b = kind.raised (a || b) := by
  cases a <;> cases b <;> cases kind <;> rfl

namespace Outgoing

/-- Does the reference lead to a file through the alias of another repository? -/
def isExternal (o : Outgoing) : Bool :=
  match o.target with
  | .file .. => o.alias?.isSome
  | _ => false

/-- The node that the reference adds. -/
def newNode (o : Outgoing) : GraphNode :=
  .new o.key (o.key.baseKind.raised o.isExternal)

/-- The node at the end of the reference, after the reference. -/
def touch (o : Outgoing) (n : GraphNode) : GraphNode :=
  { n with
    kind := n.kind.raised o.isExternal
    repository? := n.repository? <|> o.target.repository? }

theorem key_touch (o : Outgoing) (n : GraphNode) : (o.touch n).key = n.key := rfl

theorem isExternal_of_key {o : Outgoing} {p : Path} (h : (o.key == .file p) = true) :
    o.isExternal = o.alias?.isSome := by
  unfold key at h
  unfold isExternal
  cases htarget : o.target <;> simp_all

end Outgoing

namespace Graph

/-- The keys of the nodes. -/
def keys (g : Graph) : List NodeKey :=
  g.nodes.map (·.key)

/-- The kind of the node with a key. -/
def kind? (g : Graph) (key : NodeKey) : Option NodeKind :=
  (g.node? key).map (·.kind)

variable {g : Graph} {key : NodeKey}

theorem addNode_nodes (g : Graph) (n : GraphNode) :
    (g.addNode n).nodes = appendNew (fun m n => m.key == n.key) g.nodes n := by
  unfold addNode appendNew
  split <;> rfl

theorem addEdge_edges (g : Graph) (e : GraphEdge) :
    (g.addEdge e).edges = appendNew GraphEdge.joinsAs g.edges e := by
  unfold addEdge appendNew
  split <;> rfl

@[simp] theorem addNode_edges (g : Graph) (n : GraphNode) : (g.addNode n).edges = g.edges := by
  unfold addNode
  split <;> rfl

@[simp] theorem addEdge_nodes (g : Graph) (e : GraphEdge) : (g.addEdge e).nodes = g.nodes := by
  unfold addEdge
  split <;> rfl

@[simp] theorem updateNode_edges (g : Graph) (key : NodeKey) (change : GraphNode → GraphNode) :
    (g.updateNode key change).edges = g.edges := rfl

theorem keys_addNode (g : Graph) (n : GraphNode) :
    (g.addNode n).keys = appendNew (· == ·) g.keys n.key := by
  rw [keys, addNode_nodes, appendNew, appendNew, keys, List.any_map]
  simp only [Function.comp_def]
  split <;> simp

theorem keys_updateNode {change : GraphNode → GraphNode} (h : ∀ n, (change n).key = n.key) :
    (g.updateNode key change).keys = g.keys := by
  rw [keys, updateNode, List.map_map, keys]
  refine List.map_congr_left fun n _ => ?_
  simp only [Function.comp]
  split
  · exact h n
  · rfl

theorem node?_addNode (g : Graph) (n : GraphNode) (key : NodeKey) :
    (g.addNode n).node? key = (g.node? key).or (if n.key == key then some n else none) := by
  rw [node?, addNode_nodes, appendNew, node?]
  split
  next hany =>
    cases hfind : g.nodes.find? (·.key == key) with
    | some m => rfl
    | none =>
      obtain ⟨m, hmem, hm⟩ := List.any_eq_true.1 hany
      have hnot : (m.key == key) = false := by simpa using List.find?_eq_none.1 hfind m hmem
      rw [BEq.congr_left hm] at hnot
      simp [hnot]
  · rw [List.find?_append, List.find?_singleton]

theorem node?_updateNode {change : GraphNode → GraphNode} (h : ∀ n, (change n).key = n.key)
    (k : NodeKey) :
    (g.updateNode key change).node? k = (g.node? k).map fun n =>
      if n.key == key then change n else n := by
  rw [node?, updateNode, List.find?_map, node?]
  congr 2
  funext n
  simp only [Function.comp]
  split <;> simp [h]

theorem updateNode_id (g : Graph) (key : NodeKey) : g.updateNode key id = g := by
  simp [updateNode]

/-- Every reference adds its node, if its key is new, and touches the node of its key. -/
theorem addTarget_eq (g : Graph) (o : Outgoing) :
    g.addTarget o = (g.addNode o.newNode).updateNode o.key o.touch := by
  unfold addTarget Outgoing.newNode
  cases htarget : o.target with
  | file path repository? =>
    have hkey : o.key = .file path := by rw [Outgoing.key, htarget]
    have hexternal : o.isExternal = o.alias?.isSome := by rw [Outgoing.isExternal, htarget]
    have hnew : (NodeKind.template).raised o.alias?.isSome =
        if o.alias?.isSome then .external else .template := by
      cases o.alias?.isSome <;> rfl
    simp only [hkey, NodeKey.baseKind, hexternal, hnew]
    congr 1
    funext n
    rw [Outgoing.touch, hexternal, htarget]
    rfl
  | missing path repository? =>
    have hkey : o.key = .missing path := by rw [Outgoing.key, htarget]
    have hexternal : o.isExternal = false := by rw [Outgoing.isExternal, htarget]
    simp only [hkey, NodeKey.baseKind, hexternal]
    congr 1
    funext n
    rw [Outgoing.touch, hexternal, htarget]
    rfl
  | unknownAlias name =>
    have hkey : o.key = .unknownAlias name o.reference.raw := by rw [Outgoing.key, htarget]
    have hexternal : o.isExternal = false := by rw [Outgoing.isExternal, htarget]
    have htouch : o.touch = id := by
      funext n
      rw [Outgoing.touch, hexternal, htarget]
      simp [Target.repository?, NodeKind.raised]
    rw [htouch, updateNode_id, hkey, hexternal]
    rfl

@[simp] theorem addTarget_edges (g : Graph) (o : Outgoing) : (g.addTarget o).edges = g.edges := by
  rw [addTarget_eq, updateNode_edges, addNode_edges]

theorem keys_addTarget (g : Graph) (o : Outgoing) :
    (g.addTarget o).keys = appendNew (· == ·) g.keys o.key := by
  rw [addTarget_eq, keys_updateNode o.key_touch, keys_addNode]
  rfl

theorem keys_foldl_addTarget (g : Graph) (os : List Outgoing) :
    (os.foldl addTarget g).keys = (os.map Outgoing.key).foldl (appendNew (· == ·)) g.keys := by
  induction os generalizing g with
  | nil => rfl
  | cons o os ih => rw [List.foldl_cons, ih, keys_addTarget, List.map_cons, List.foldl_cons]

theorem key_beq_of_node? {n : GraphNode} (h : g.node? key = some n) : (n.key == key) = true :=
  List.find?_some (p := fun n : GraphNode => n.key == key) h

theorem node?_of_mem (apart : g.nodes.Pairwise fun m n => (m.key == n.key) = false) {n : GraphNode}
    (h : n ∈ g.nodes) : g.node? n.key = some n := by
  obtain ⟨front, rest, hsplit⟩ := List.append_of_mem h
  rw [hsplit] at apart
  rw [node?, hsplit, List.find?_append, List.find?_cons_of_pos (by simp), Option.or_eq_some_iff]
  refine .inr ⟨List.find?_eq_none.2 fun m hm => ?_, rfl⟩
  simpa using (List.pairwise_append.1 apart).2.2 m hm n (by simp)

/-- A reference raises the kind of the node at its end, and of no other. -/
theorem kind?_addTarget (g : Graph) (o : Outgoing) (key : NodeKey) :
    (g.addTarget o).kind? key =
      if o.key == key then some (((g.kind? key).getD key.baseKind).raised o.isExternal)
        else g.kind? key := by
  rw [kind?, addTarget_eq, node?_updateNode o.key_touch, node?_addNode, kind?]
  have hkey : o.newNode.key = o.key := rfl
  rw [hkey]
  cases hfind : g.node? key with
  | some n =>
    have hn := key_beq_of_node? hfind
    rw [Option.some_or, Option.map_some, Option.map_some, BEq.congr_left hn, BEq.comm]
    split <;> rfl
  | none =>
    split
    next hsame =>
      simp [Outgoing.newNode, Outgoing.touch, GraphNode.new, NodeKind.raised_raised,
        NodeKey.baseKind_congr hsame]
    · rfl

/-- The kind of a node after references does not depend on their order: it is raised, if one of
those that end there goes through an alias. -/
theorem kind?_foldl_addTarget (g : Graph) (os : List Outgoing) (key : NodeKey) :
    (os.foldl addTarget g).kind? key =
      if os.any (·.key == key) then
        some (((g.kind? key).getD key.baseKind).raised
          (os.any fun o => o.key == key && o.isExternal))
      else g.kind? key := by
  induction os generalizing g with
  | nil => rfl
  | cons o os ih =>
    rw [List.foldl_cons, ih, kind?_addTarget, List.any_cons, List.any_cons]
    cases o.key == key with
    | false => rfl
    | true =>
      cases hlater : os.any (·.key == key) with
      | true => simp [NodeKind.raised_raised]
      | false =>
        have hnone : (os.any fun o => o.key == key && o.isExternal) = false := by
          rw [List.any_eq_false] at hlater ⊢
          intro o' ho'
          simp [hlater o' ho']
        simp [hnone]

end Graph

/-! ### Edges -/

namespace GraphEdge

theorem joinsAs_refl (e : GraphEdge) : e.joinsAs e = true := by
  simp [joinsAs]

theorem joinsAs_trans (d e f : GraphEdge) (h : d.joinsAs e = true) (h' : e.joinsAs f = true) :
    d.joinsAs f = true := by
  simp only [joinsAs, Bool.and_eq_true] at h h' ⊢
  exact ⟨⟨BEq.trans h.1.1 h'.1.1, BEq.trans h.1.2 h'.1.2⟩, BEq.trans h.2 h'.2⟩

/-- The edge of a reference of a file. -/
def ofReference (file : Path) (o : Outgoing) : GraphEdge :=
  ⟨.file file, o.key, .undirected, o.edgeLabel?⟩

theorem joinsAs_ofReference (f f' : Path) (o o' : Outgoing) :
    (ofReference f o).joinsAs (ofReference f' o') = (f == f' && o.key == o'.key) := by
  simp [ofReference, joinsAs]

/-- Is there no reference before this one, in the list, to the same end? -/
def IsFirst (os : List Outgoing) (o : Outgoing) : Prop :=
  os.find? (·.key == o.key) = some o

/-- Among the edges of all references of differing files, those that come first are the edges of the
first references of each file. -/
theorem find?_joinsAs_iff {files : List Path} (hfiles : files.Pairwise fun p q => (p == q) = false)
    {refs : Path → List Outgoing} {e : GraphEdge} :
    (files.flatMap fun f => (refs f).map (ofReference f)).find? (·.joinsAs e) = some e ↔
      ∃ f ∈ files, ∃ o, IsFirst (refs f) o ∧ e = ofReference f o := by
  induction files with
  | nil => simp
  | cons f files ih =>
    obtain ⟨hf, hfiles⟩ := List.pairwise_cons.1 hfiles
    have hown : ∀ o, (refs f).find? (fun o' => (ofReference f o').joinsAs (ofReference f o)) =
        (refs f).find? (·.key == o.key) := by
      intro o
      simp only [joinsAs_ofReference, BEq.rfl, Bool.true_and]
    rw [List.flatMap_cons, List.find?_append, List.find?_map, Option.or_eq_some_iff, ih hfiles]
    simp only [Option.map_eq_some_iff, Option.map_eq_none_iff, Function.comp_def, List.mem_cons]
    constructor
    · rintro (⟨o, hfind, rfl⟩ | ⟨-, f', hmem, o, hfirst, rfl⟩)
      · exact ⟨f, .inl rfl, o, by rwa [hown] at hfind, rfl⟩
      · exact ⟨f', .inr hmem, o, hfirst, rfl⟩
    · rintro ⟨f', rfl | hmem, o, hfirst, rfl⟩
      · exact .inl ⟨o, by rwa [hown], rfl⟩
      · refine .inr ⟨?_, f', hmem, o, hfirst, rfl⟩
        simp [joinsAs_ofReference, hf f' hmem]

end GraphEdge

namespace Graph

variable {g : Graph}

theorem addTarget_nodes_congr {h : Graph} (hnodes : g.nodes = h.nodes) (o : Outgoing) :
    (g.addTarget o).nodes = (h.addTarget o).nodes := by
  simp only [addTarget_eq, updateNode, addNode_nodes, hnodes]

theorem foldl_addTarget_nodes_congr {h : Graph} (hnodes : g.nodes = h.nodes) (os : List Outgoing) :
    (os.foldl addTarget g).nodes = (os.foldl addTarget h).nodes := by
  induction os generalizing g h with
  | nil => exact hnodes
  | cons o os ih => exact ih (addTarget_nodes_congr hnodes o)

/-- The references of a file add their nodes and their edges apart from each other. -/
theorem foldl_addReference (file : Path) (os : List Outgoing) (g : Graph) :
    os.foldl (addReference file) g =
      ⟨(os.foldl addTarget g).nodes,
        (os.map (GraphEdge.ofReference file)).foldl (appendNew GraphEdge.joinsAs) g.edges⟩ := by
  induction os generalizing g with
  | nil => rfl
  | cons o os ih =>
    have hedges : (addReference file g o).edges =
        appendNew GraphEdge.joinsAs g.edges (GraphEdge.ofReference file o) := by
      rw [addReference, addEdge_edges, addTarget_edges]
      rfl
    have hnodes : (addReference file g o).nodes = (g.addTarget o).nodes := addEdge_nodes _ _
    rw [List.foldl_cons, ih, hedges, foldl_addTarget_nodes_congr hnodes]
    rfl

/-- The references of several files do, too. -/
theorem foldl_foldl_addReference (files : List Path) (refs : Path → List Outgoing) (g : Graph) :
    files.foldl (fun g f => (refs f).foldl (addReference f) g) g =
      ⟨((files.flatMap refs).foldl addTarget g).nodes,
        (files.flatMap fun f => (refs f).map (GraphEdge.ofReference f)).foldl
          (appendNew GraphEdge.joinsAs) g.edges⟩ := by
  induction files generalizing g with
  | nil => rfl
  | cons f files ih =>
    have hsame : ∀ edges,
        ((files.flatMap refs).foldl addTarget ⟨((refs f).foldl addTarget g).nodes, edges⟩).nodes =
        ((files.flatMap refs).foldl addTarget ((refs f).foldl addTarget g)).nodes :=
      fun _ => foldl_addTarget_nodes_congr (by rfl) _
    rw [List.foldl_cons, ih, foldl_addReference, hsame, List.flatMap_cons, List.foldl_append,
      List.flatMap_cons, List.foldl_append]

theorem foldl_addNode_nodes (g : Graph) (ns : List GraphNode) :
    (ns.foldl addNode g).nodes = ns.foldl (appendNew fun m n => m.key == n.key) g.nodes := by
  induction ns generalizing g with
  | nil => rfl
  | cons n ns ih => rw [List.foldl_cons, ih, addNode_nodes, List.foldl_cons]

theorem foldl_addNode_edges (g : Graph) (ns : List GraphNode) :
    (ns.foldl addNode g).edges = g.edges := by
  induction ns generalizing g with
  | nil => rfl
  | cons n ns ih => rw [List.foldl_cons, ih, addNode_edges]

end Graph

end TemplateAtlas
