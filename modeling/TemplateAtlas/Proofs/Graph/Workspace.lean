import TemplateAtlas.Proofs.Graph.Drawing
import TemplateAtlas.Proofs.Workspace

/-!
# What the graph of a workspace depicts

`Graph.Depicts` says of a graph, without mentioning any order, which nodes and edges it has, given
the texts and the references of the listed files. The graph of a workspace depicts its files,
whatever they answer (`depicts_workspaceGraph`), and it agrees with the index that is built over the
same files (`Workspace.graph_depicts_files`).
-/

namespace TemplateAtlas

open Std Inquiry TemplateAtlas.Template

/-! ### Lists of differing files -/

/-- Listed files that are the same file are one entry of the list. -/
theorem eq_of_beq_of_mem {files : List Path} (hfiles : files.Pairwise fun p q => (p == q) = false)
    {p q : Path} (hp : p ∈ files) (hq : q ∈ files) (h : (p == q) = true) : p = q := by
  have hsymm : Std.Symm fun p q : Path => (p == q) = false := ⟨fun _ _ hpq => by rwa [BEq.comm]⟩
  by_contra hne
  have := hfiles.forall hp hq hne
  rw [h] at this
  cases this

/-! ### What a graph depicts -/

/-- The graph depicts files whose texts are `text` and whose references are `refs`. The order of the
files plays no part in any of this. -/
structure Graph.Depicts (files : List Path) (text : Path → Option String)
    (refs : Path → List Outgoing) (g : Graph) : Prop where
  /-- No two nodes have one key. -/
  apart : g.nodes.Pairwise fun m n => (m.key == n.key) = false
  /-- Every file is a node. -/
  listed : ∀ f ∈ files, ∃ n ∈ g.nodes, n.key = .file f
  /-- Every other node is the end of a reference of a file. -/
  reached : ∀ n ∈ g.nodes, (∃ f ∈ files, n.key = .file f) ∨ ∃ f ∈ files, ∃ o ∈ refs f, n.key = o.key
  /-- The edges are those of the first references of each file to each end. -/
  edges : ∀ e, e ∈ g.edges ↔ ∃ f ∈ files, ∃ o, GraphEdge.IsFirst (refs f) o ∧ e = .ofReference f o
  /-- No two edges join the same nodes. -/
  single : g.edges.Pairwise fun d e => (d.source == e.source && d.target == e.target) = false
  /-- Every edge joins nodes of the graph. -/
  joined : ∀ e ∈ g.edges, ∃ m ∈ g.nodes, ∃ n ∈ g.nodes, (m.key == e.source) = true ∧
    (n.key == e.target) = true
  /-- The listed entry files of pipelines are marked as such. -/
  pipeline : ∀ n ∈ g.nodes, ∀ p ∈ files, n.key = .file p → (text p).any isPipelineRoot = true →
    n.kind = .pipeline
  /-- Of all other files, those are external that some reference reaches through the alias of
  another repository. -/
  external : ∀ n ∈ g.nodes, ∀ p, n.key = .file p →
    ¬(p ∈ files ∧ (text p).any isPipelineRoot = true) →
    n.kind = if files.any fun f => (refs f).any fun o =>
      o.key == .file p && o.alias?.isSome then .external
      else .template
  /-- Nodes that stand for no file are marked as what they are. -/
  broken : ∀ n ∈ g.nodes, (∀ p, n.key ≠ .file p) → n.kind = n.key.baseKind
  /-- Every node of a file carries the numbers of the parameters that the file declares. -/
  counts : ∀ n ∈ g.nodes, ∀ p, n.key = .file p → (n.parameterCount, n.requiredCount) =
    countsOfText (text p)

namespace Graph

variable {files : List Path} {text : Path → Option String} {refs : Path → List Outgoing}

/-- The nodes of the files themselves. -/
def ownNodes (text : Path → Option String) (files : List Path) : List GraphNode :=
  files.map fun f => .new (.file f) (kindOfText (text f))

/-- What is drawn of files and their references, before parameters are counted. -/
def drawn (text : Path → Option String) (refs : Path → List Outgoing) (files : List Path) : Graph :=
  files.foldl (fun g f => (refs f).foldl (addReference f) g)
    ((ownNodes text files).foldl addNode {})

theorem keys_ownNodes : (ownNodes text files).map (·.key) = files.map .file := by
  rw [ownNodes, List.map_map]
  rfl

theorem mem_keys_iff {g : Graph} {key : NodeKey} : key ∈ g.keys ↔ ∃ n ∈ g.nodes, n.key = key :=
  List.mem_map

/-- The nodes are those of the files after all references. -/
theorem drawn_nodes :
    (drawn text refs files).nodes =
      ((files.flatMap refs).foldl addTarget ((ownNodes text files).foldl addNode {})).nodes := by
  rw [drawn, foldl_foldl_addReference]

/-- No two nodes have one key. -/
theorem apart_drawn :
    (drawn text refs files).nodes.Pairwise fun m n => (m.key == n.key) = false := by
  have hown : ((ownNodes text files).foldl addNode {}).keys.Pairwise fun k l =>
      (k == l) = false := by
    rw [keys, List.pairwise_map, foldl_addNode_nodes]
    exact pairwise_foldl_appendNew .nil _
  have hkeys : (drawn text refs files).keys.Pairwise fun k l => (k == l) = false := by
    rw [keys, drawn_nodes, ← keys, keys_foldl_addTarget]
    exact pairwise_foldl_appendNew hown _
  exact List.pairwise_map.1 hkeys

section Drawn

variable (hfiles : files.Pairwise fun p q => (p == q) = false)
include hfiles

theorem apart_ownNodes : (ownNodes text files).Pairwise fun m n => (m.key == n.key) = false :=
  List.pairwise_map.2 hfiles

theorem foldl_ownNodes_nodes :
    ((ownNodes text files).foldl addNode {}).nodes = ownNodes text files := by
  rw [foldl_addNode_nodes]
  exact foldl_appendNew_eq_append (apart_ownNodes hfiles)

theorem drawn_eq :
    drawn text refs files =
      ⟨((files.flatMap refs).foldl addTarget ⟨ownNodes text files, []⟩).nodes,
        (files.flatMap fun f => (refs f).map (GraphEdge.ofReference f)).foldl
          (appendNew GraphEdge.joinsAs) []⟩ := by
  have hown : (ownNodes text files).foldl addNode {} = ⟨ownNodes text files, []⟩ := by
    have hnodes := @foldl_ownNodes_nodes files text hfiles
    have hedges := foldl_addNode_edges {} (ownNodes text files)
    generalize (ownNodes text files).foldl addNode {} = g at hnodes hedges
    obtain ⟨nodes, edges⟩ := g
    exact congrArg₂ Graph.mk hnodes hedges
  rw [drawn, hown, foldl_foldl_addReference]

/-- The keys are those of the files and then those of the ends of references, each once. -/
theorem keys_drawn :
    (drawn text refs files).keys =
      ((files.flatMap refs).map Outgoing.key).foldl (appendNew (· == ·)) (files.map .file) := by
  have hkeys : (⟨ownNodes text files, []⟩ : Graph).keys = files.map .file := keys_ownNodes
  rw [drawn_eq hfiles, ← hkeys, ← keys_foldl_addTarget]
  rfl

/-- A key is drawn, if it is the key of a file or, among the keys of ends of references, the first
of its kind that is not. -/
theorem mem_keys_drawn_iff {key : NodeKey} :
    key ∈ (drawn text refs files).keys ↔ key ∈ files.map .file ∨
      ((files.map NodeKey.file).any (· == key) = false ∧
        ((files.flatMap refs).map Outgoing.key).find? (· == key) = some key) := by
  rw [keys_drawn hfiles]
  exact mem_foldl_appendNew_iff (fun _ => BEq.rfl) fun _ _ _ => BEq.trans

theorem mem_edges_drawn_iff {e : GraphEdge} :
    e ∈ (drawn text refs files).edges ↔ ∃ f ∈ files, ∃ o, GraphEdge.IsFirst (refs f) o ∧
      e = .ofReference f o := by
  rw [drawn_eq hfiles, mem_foldl_appendNew_iff GraphEdge.joinsAs_refl GraphEdge.joinsAs_trans,
    GraphEdge.find?_joinsAs_iff hfiles]
  simp

/-- The kind of a node that is drawn, by its key alone. -/
theorem kind_of_mem_drawn {n : GraphNode} (h : n ∈ (drawn text refs files).nodes) :
    n.kind =
      ((((files.find? (NodeKey.file · == n.key)).map fun f => kindOfText (text f)).getD
      n.key.baseKind).raised
      ((files.flatMap refs).any fun o => o.key == n.key && o.isExternal)) := by
  have hkind : (drawn text refs files).kind? n.key = some n.kind := by
    rw [kind?, node?_of_mem apart_drawn h]
    rfl
  have hown : (⟨ownNodes text files, []⟩ : Graph).kind? n.key =
      (files.find? (NodeKey.file · == n.key)).map fun f => kindOfText (text f) := by
    rw [kind?, node?, ownNodes, List.find?_map, Option.map_map]
    rfl
  have hdrawn : (drawn text refs files).kind? n.key =
      ((files.flatMap refs).foldl addTarget ⟨ownNodes text files, []⟩).kind? n.key := by
    rw [drawn_eq hfiles]
    rfl
  rw [hdrawn, kind?_foldl_addTarget, hown] at hkind
  split at hkind
  · exact (Option.some.inj hkind).symm
  next hno =>
    have hnone : ((files.flatMap refs).any fun o => o.key == n.key && o.isExternal) = false := by
      rw [List.any_eq_false]
      intro o ho hboth
      exact hno (List.any_eq_true.2 ⟨o, ho, (Bool.and_eq_true_iff.1 hboth).1⟩)
    rw [hnone, hkind]
    rfl

theorem single_drawn : (drawn text refs files).edges.Pairwise fun d e => d.joinsAs e = false := by
  rw [drawn_eq hfiles]
  exact pairwise_foldl_appendNew List.Pairwise.nil _

/-- The end of every reference of a file is drawn. -/
theorem exists_mem_keys_drawn {f : Path} (hf : f ∈ files) {o : Outgoing} (ho : o ∈ refs f) :
    ∃ key ∈ (drawn text refs files).keys, (key == o.key) = true := by
  by_cases hlisted : (files.map NodeKey.file).any (· == o.key) = true
  · obtain ⟨key, hmem, hkey⟩ := List.any_eq_true.1 hlisted
    exact ⟨key, (mem_keys_drawn_iff hfiles).2 (.inl hmem), hkey⟩
  · have hmem : o.key ∈ (files.flatMap refs).map Outgoing.key :=
      List.mem_map_of_mem (List.mem_flatMap.2 ⟨f, hf, ho⟩)
    obtain ⟨key, hfind⟩ : ∃ key, ((files.flatMap refs).map Outgoing.key).find? (· == o.key) =
        some key :=
      Option.isSome_iff_exists.1 (List.find?_isSome.2 ⟨o.key, hmem, BEq.rfl⟩)
    have hkey : (key == o.key) = true := List.find?_some (p := (· == o.key)) hfind
    have hsame : (fun k : NodeKey => k == key) = (· == o.key) :=
      funext fun k => BEq.congr_right hkey
    refine ⟨key, (mem_keys_drawn_iff hfiles).2 (.inr ⟨?_, ?_⟩), hkey⟩
    · rw [hsame]
      exact Bool.eq_false_iff.2 hlisted
    · rw [hsame]
      exact hfind

/-- A node with the key of a listed file is the node of that file. -/
theorem mem_files_of_mem_drawn {n : GraphNode} (h : n ∈ (drawn text refs files).nodes) {p f : Path}
    (hn : n.key = .file p) (hf : f ∈ files) (hpf : (f == p) = true) : p ∈ files := by
  have hkey : NodeKey.file p ∈ (drawn text refs files).keys := mem_keys_iff.2 ⟨n, h, hn⟩
  rcases (mem_keys_drawn_iff hfiles).1 hkey with hlisted | ⟨hunlisted, -⟩
  · obtain ⟨f', hf', heq⟩ := List.mem_map.1 hlisted
    cases heq
    exact hf'
  · have := List.any_eq_false.1 hunlisted (.file f) (List.mem_map_of_mem hf)
    exact absurd hpf this

/-- The kind of the node of a file that is drawn. -/
theorem kind_of_file_drawn {n : GraphNode} (h : n ∈ (drawn text refs files).nodes) {p : Path}
    (hn : n.key = .file p) :
    n.kind = (if files.any (· == p) then kindOfText (text p) else .template).raised
      (files.any fun f => (refs f).any fun o => o.key == .file p && o.alias?.isSome) := by
  have hexternal : ((files.flatMap refs).any fun o => o.key == n.key && o.isExternal) =
      files.any fun f => (refs f).any fun o => o.key == .file p && o.alias?.isSome := by
    rw [List.any_flatMap, hn]
    congr 1
    funext f
    congr 1
    funext o
    cases hkey : o.key == .file p with
    | false => rfl
    | true => rw [Outgoing.isExternal_of_key hkey]
  have hown :
      (((files.find? (NodeKey.file · == n.key)).map fun f => kindOfText (text f)).getD
      n.key.baseKind) =
      if files.any (· == p) then kindOfText (text p) else .template := by
    rw [hn]
    cases hfind : files.find? (NodeKey.file · == .file p) with
    | none =>
      have hno : files.any (· == p) = false := List.any_eq_false.2 (List.find?_eq_none.1 hfind)
      rw [hno]
      rfl
    | some f =>
      have hf := List.mem_of_find?_eq_some hfind
      have hfp : (f == p) = true :=
        List.find?_some (p := fun f : Path => NodeKey.file f == .file p) hfind
      have hany : files.any (· == p) = true := List.any_eq_true.2 ⟨f, hf, hfp⟩
      rw [hany, eq_of_beq_of_mem hfiles hf (mem_files_of_mem_drawn hfiles h hn hf hfp) hfp]
      rfl
  rw [kind_of_mem_drawn hfiles h, hexternal, hown]

/-- The kind of a node that stands for no file. -/
theorem kind_of_broken_drawn {n : GraphNode} (h : n ∈ (drawn text refs files).nodes)
    (hn : ∀ p, n.key ≠ .file p) : n.kind = n.key.baseKind := by
  have hown : files.find? (NodeKey.file · == n.key) = none := by
    refine List.find?_eq_none.2 fun f _ => ?_
    cases hkey : n.key with
    | file p => exact absurd hkey (hn p)
    | missing p => simp
    | unknownAlias name raw => simp
  have hlocal : ((files.flatMap refs).any fun o => o.key == n.key && o.isExternal) = false := by
    rw [List.any_eq_false]
    intro o _ hboth
    rw [Bool.and_eq_true] at hboth
    obtain ⟨hsame, hexternal⟩ := hboth
    unfold Outgoing.isExternal at hexternal
    unfold Outgoing.key at hsame
    cases htarget : o.target with
    | file p repository? =>
      rw [htarget] at hsame
      cases hkey : n.key with
      | file p => exact hn p hkey
      | missing p => simp [hkey] at hsame
      | unknownAlias name raw => simp [hkey] at hsame
    | missing p repository? => simp [htarget] at hexternal
    | unknownAlias name => simp [htarget] at hexternal
  rw [kind_of_mem_drawn hfiles h, hown, hlocal]
  rfl

end Drawn

end Graph

/-! ### The answer of the files -/

/-- A node of a file with the numbers of the parameters that the file declares. -/
def GraphNode.counted (text : Path → Option String) (n : GraphNode) : GraphNode :=
  match n.key with
  | .file p =>
    { n with
      parameterCount := (countsOfText (text p)).1
      requiredCount := (countsOfText (text p)).2 }
  | _ => n

@[simp] theorem GraphNode.key_counted (text : Path → Option String) (n : GraphNode) :
    (n.counted text).key = n.key := by
  unfold counted
  split <;> rfl

@[simp] theorem GraphNode.kind_counted (text : Path → Option String) (n : GraphNode) :
    (n.counted text).kind = n.kind := by
  unfold counted
  split <;> rfl

theorem answer_countParameters (view : View) (n : GraphNode) :
    (countParameters n).answer view = n.counted view.text := by
  unfold countParameters GraphNode.counted
  cases n.key with
  | file p => simp [parameterCounts]
  | missing p => rfl
  | unknownAlias name raw => rfl

/-- The graph is what is drawn of the files and their references, with the parameters counted. -/
theorem answer_workspaceGraph (view : View) (files : List Path) :
    (workspaceGraph files).answer view =
      let g := Graph.drawn view.text (fun f => (outgoing f).answer view) files
      { g with nodes := g.nodes.map (GraphNode.counted view.text) } := by
  have hown : (each (fun file => do return GraphNode.new (.file file) (← classify file))
      files).answer view = Graph.ownNodes view.text files := by
    simp [Graph.ownNodes, classify]
  have hfound : (each (fun file => do return (file, ← outgoing file)) files).answer view =
      files.map fun f => (f, (outgoing f).answer view) := by
    simp
  have hcounted : ∀ ns : List GraphNode, (each countParameters ns).answer view =
      ns.map (GraphNode.counted view.text) := by
    simp [answer_countParameters]
  rw [workspaceGraph, answer_bind, answer_bind, answer_bind, answer_pure, hown, hfound, hcounted]
  simp only [List.foldl_map]
  rfl

/-- Whatever the files answer, the graph depicts them. -/
theorem depicts_workspaceGraph {files : List Path}
    (hfiles : files.Pairwise fun p q => (p == q) = false) (view : View) :
    ((workspaceGraph files).answer view).Depicts files view.text fun f =>
      (outgoing f).answer view := by
  rw [answer_workspaceGraph]
  set refs : Path → List Outgoing := fun f => (outgoing f).answer view with hrefs
  set g := Graph.drawn view.text refs files with hg
  have hkeys : ∀ key, (∃ n ∈ g.nodes.map (GraphNode.counted view.text), n.key = key) ↔
      key ∈ g.keys := by
    intro key
    simp [Graph.mem_keys_iff]
  have hends : ∀ e ∈ g.edges, ∃ f ∈ files, ∃ o ∈ refs f, e = .ofReference f o := by
    intro e he
    obtain ⟨f, hf, o, hfirst, rfl⟩ := (Graph.mem_edges_drawn_iff hfiles).1 he
    exact ⟨f, hf, o, List.mem_of_find?_eq_some hfirst, rfl⟩
  refine
    { apart := ?_, listed := ?_, reached := ?_, edges := ?_, single := ?_, joined := ?_
      pipeline := ?_, external := ?_, broken := ?_, counts := ?_ }
  · rw [List.pairwise_map]
    simpa using Graph.apart_drawn
  · intro f hf
    rw [hkeys]
    exact (Graph.mem_keys_drawn_iff hfiles).2 (.inl (List.mem_map_of_mem hf))
  · intro n hn
    have hkey := (hkeys n.key).1 ⟨n, hn, rfl⟩
    rcases (Graph.mem_keys_drawn_iff hfiles).1 hkey with hlisted | ⟨-, hfind⟩
    · obtain ⟨f, hf, heq⟩ := List.mem_map.1 hlisted
      exact .inl ⟨f, hf, heq.symm⟩
    · obtain ⟨o, ho, heq⟩ := List.mem_map.1 (List.mem_of_find?_eq_some hfind)
      obtain ⟨f, hf, ho⟩ := List.mem_flatMap.1 ho
      exact .inr ⟨f, hf, o, ho, heq.symm⟩
  · exact fun e => Graph.mem_edges_drawn_iff hfiles
  · refine (Graph.single_drawn hfiles).imp_of_mem fun {d e} hd he hde => ?_
    obtain ⟨f, -, o, -, rfl⟩ := hends d hd
    obtain ⟨f', -, o', -, rfl⟩ := hends e he
    rwa [GraphEdge.joinsAs_ofReference] at hde
  · intro e he
    obtain ⟨f, hf, o, ho, rfl⟩ := hends e he
    obtain ⟨m, hm, hsource⟩ :=
      (hkeys (.file f)).2 ((Graph.mem_keys_drawn_iff hfiles).2 (.inl (List.mem_map_of_mem hf)))
    obtain ⟨key, hkey, hend⟩ := Graph.exists_mem_keys_drawn hfiles hf ho
    obtain ⟨n, hn, rfl⟩ := (hkeys key).2 hkey
    exact ⟨m, hm, n, hn, by simp [hsource, GraphEdge.ofReference], hend⟩
  · simp only [List.forall_mem_map, GraphNode.key_counted, GraphNode.kind_counted]
    intro n hn p hp hkey hroot
    have hlisted : files.any (· == p) = true := List.any_eq_true.2 ⟨p, hp, BEq.rfl⟩
    rw [Graph.kind_of_file_drawn hfiles hn hkey, hlisted, if_pos rfl, kindOfText, if_pos hroot,
      NodeKind.raised]
    simp
  · simp only [List.forall_mem_map, GraphNode.key_counted, GraphNode.kind_counted]
    intro n hn p hkey hno
    have hown : (if files.any (· == p) then kindOfText (view.text p) else .template) =
        .template := by
      split
      next hany =>
        obtain ⟨f, hf, hfp⟩ := List.any_eq_true.1 hany
        have hp := Graph.mem_files_of_mem_drawn hfiles hn hkey hf hfp
        rw [kindOfText, if_neg fun hroot => hno ⟨hp, hroot⟩]
      · rfl
    rw [Graph.kind_of_file_drawn hfiles hn hkey, hown, NodeKind.raised]
    simp
  · simp only [List.forall_mem_map, GraphNode.key_counted, GraphNode.kind_counted]
    intro n hn hbroken
    exact Graph.kind_of_broken_drawn hfiles hn hbroken
  · simp only [List.forall_mem_map, GraphNode.key_counted]
    intro n hn p hkey
    rw [GraphNode.counted, hkey]

/-! ### Graph and index -/

section Index

variable {files : List Path} {refs : Path → List Outgoing} {text : Path → Option String} {g : Graph}

/-- A file has an edge to a node with a path, if one of its references leads there. -/
theorem Graph.Depicts.exists_edge_iff (h : g.Depicts files text refs)
    (hfiles : files.Pairwise fun p q => (p == q) = false) {f : Path} (hf : f ∈ files) (t : Path) :
    (∃ e ∈ g.edges, (e.source == .file f) = true ∧ (e.target.path? == some t) = true) ↔
      ∃ o ∈ refs f, (o.target.path? == some t) = true := by
  constructor
  · rintro ⟨e, he, hsource, htarget⟩
    obtain ⟨f', hf', o, hfirst, rfl⟩ := (h.edges e).1 he
    obtain rfl := eq_of_beq_of_mem hfiles hf' hf hsource
    refine ⟨o, List.mem_of_find?_eq_some hfirst, ?_⟩
    rwa [GraphEdge.ofReference, Outgoing.path?_key] at htarget
  · rintro ⟨o, ho, hpath⟩
    obtain ⟨first, hfind⟩ : ∃ first, (refs f).find? (·.key == o.key) = some first :=
      Option.isSome_iff_exists.1 (List.find?_isSome.2 ⟨o, ho, BEq.rfl⟩)
    have hkey : (first.key == o.key) = true :=
      List.find?_some (p := fun x : Outgoing => x.key == o.key) hfind
    have hfirst : GraphEdge.IsFirst (refs f) first := by
      have hsame : (fun x : Outgoing => x.key == first.key) = (·.key == o.key) :=
        funext fun x => BEq.congr_right hkey
      rw [GraphEdge.IsFirst, hsame, hfind]
    refine ⟨.ofReference f first, (h.edges _).2 ⟨f, hf, first, hfirst, rfl⟩, BEq.rfl, ?_⟩
    have hends : (first.key.path? == some t) = true := by
      rw [NodeKey.path?_congr hkey, Outgoing.path?_key]
      exact hpath
    exact hends

/-- The index keeps of each file the references that the files show. -/
theorem forwardTargets_indexFiles (hfiles : files.Pairwise fun p q => (p == q) = false)
    (view : View) {f : Path} (hf : f ∈ files) :
    ((indexFiles files).answer view).forwardTargets f =
      ((outgoing f).answer view).filterMap Outgoing.indexed? := by
  have alike : ∀ p ∈ files, ∀ q ∈ files, compare p q = .eq →
      (indexReferences p).answer view = (indexReferences q).answer view := by
    intro p hp q hq hpq
    rw [eq_of_beq_of_mem hfiles hp hq (LawfulBEqOrd.compare_eq_iff_beq.1 hpq)]
  have hfind := SortedMap.find?_ofList_map files alike hf
  have hforward : ((indexFiles files).answer view).forward =
      SortedMap.ofList (files.map fun file => (file, (indexReferences file).answer view)) := by
    rw [Snapshot.answer_indexFiles, Snapshot.ofForward]
  rw [Snapshot.forwardTargets, hforward, hfind, Option.getD_some, answer_indexReferences]

theorem any_filterMap_indexed? (os : List Outgoing) (t : Path) :
    (∃ r ∈ os.filterMap Outgoing.indexed?, (r.target == t) = true) ↔
      ∃ o ∈ os, (o.target.path? == some t) = true := by
  have hone : ∀ o : Outgoing, (∃ r, o.indexed? = some r ∧ (r.target == t) = true) ↔
      (o.target.path? == some t) = true := by
    intro o
    unfold Outgoing.indexed?
    cases o.target.path? with
    | none => simp
    | some p => simp
  simp only [List.mem_filterMap, ← hone]
  constructor
  · rintro ⟨r, ⟨o, ho, hr⟩, ht⟩
    exact ⟨o, ho, r, hr, ht⟩
  · rintro ⟨o, ho, r, hr, ht⟩
    exact ⟨r, ⟨o, ho, hr⟩, ht⟩

/-- The callers of a target are those files whose references, as the index keeps them, lead
there. -/
theorem Snapshot.Derived.contains_directCallers_iff {s : Snapshot} (h : s.Derived) (f t : Path) :
    (s.directCallers t).contains f = true ↔ ∃ r ∈ s.forwardTargets f, (r.target == t) = true := by
  have hcallers : (s.directCallers t).contains f = (Snapshot.callersOf s.inverse t).contains f := by
    rw [Snapshot.directCallers, Snapshot.callersOf, List.contains_eq_any_beq]
    cases s.inverse.find? t with
    | none => rfl
    | some callers => exact Snapshot.any_toList callers f
  rw [hcallers, h.callers, Snapshot.refersTo, Snapshot.leadsTo, List.any_eq_true,
    Snapshot.forwardTargets]

end Index

/-! ### The order of the files -/

namespace Graph.Depicts

variable {files files' : List Path} {refs : Path → List Outgoing} {text : Path → Option String}
  {g g' : Graph}

/-- The node of a listed file is spelled as the list spells the file. -/
theorem key_eq_of_listed (h : g.Depicts files text refs) {n : GraphNode} (hn : n ∈ g.nodes)
    {f : Path} (hf : f ∈ files) (hkey : (n.key == .file f) = true) : n.key = .file f := by
  obtain ⟨m, hm, hmf⟩ := h.listed f hf
  have hsymm : Std.Symm fun m n : GraphNode => (m.key == n.key) = false :=
    ⟨fun _ _ hmn => by rwa [BEq.comm]⟩
  obtain rfl : n = m := by
    by_contra hne
    have := h.apart.forall hn hm hne
    rw [hmf, hkey] at this
    cases this
  exact hmf

/-- The kind of a node does not depend on the order in which the files are listed. -/
theorem kind_eq (h : g.Depicts files text refs) (h' : g'.Depicts files' text refs)
    (hsame : files'.Perm files) {m n : GraphNode} (hm : m ∈ g.nodes) (hn : n ∈ g'.nodes)
    (hkey : (m.key == n.key) = true) : m.kind = n.kind := by
  cases hmkey : m.key with
  | missing p =>
    have hbroken : ∀ q, n.key ≠ .file q := fun q hq => by simp [hmkey, hq] at hkey
    rw [h.broken m hm (by simp [hmkey]), h'.broken n hn hbroken, NodeKey.baseKind_congr hkey]
  | unknownAlias name raw =>
    have hbroken : ∀ q, n.key ≠ .file q := fun q hq => by simp [hmkey, hq] at hkey
    rw [h.broken m hm (by simp [hmkey]), h'.broken n hn hbroken, NodeKey.baseKind_congr hkey]
  | file p =>
    obtain ⟨q, hnkey, hpq⟩ : ∃ q, n.key = .file q ∧ (p == q) = true := by
      cases hnkey : n.key with
      | file q => exact ⟨q, rfl, by simpa [hmkey, hnkey] using hkey⟩
      | missing q => simp [hmkey, hnkey] at hkey
      | unknownAlias name raw => simp [hmkey, hnkey] at hkey
    have hspelled : p ∈ files ∨ q ∈ files' → p = q := by
      rintro (hp | hq)
      · have := h'.key_eq_of_listed hn (hsame.mem_iff.2 hp) (by rw [hnkey]; exact BEq.symm hpq)
        rw [hnkey] at this
        exact (NodeKey.file.inj this).symm
      · have := h.key_eq_of_listed hm (hsame.mem_iff.1 hq) (by rw [hmkey]; exact hpq)
        rw [hmkey] at this
        exact NodeKey.file.inj this
    by_cases hroot : p ∈ files ∧ (text p).any isPipelineRoot = true
    · obtain rfl := hspelled (.inl hroot.1)
      rw [h.pipeline m hm p hroot.1 hmkey hroot.2,
        h'.pipeline n hn p (hsame.mem_iff.2 hroot.1) hnkey hroot.2]
    · have hroot' : ¬(q ∈ files' ∧ (text q).any isPipelineRoot = true) := by
        rintro ⟨hq, htext⟩
        obtain rfl := hspelled (.inr hq)
        exact hroot ⟨hsame.mem_iff.1 hq, htext⟩
      have hends : ∀ o : Outgoing, (o.key == .file p) = (o.key == .file q) :=
        fun o => BEq.congr_right hpq
      rw [h.external m hm p hmkey hroot, h'.external n hn q hnkey hroot', hsame.any_eq]
      simp only [hends]

end Graph.Depicts

/-! ### Workspaces -/

/-- A graph asks for the roots of its files alone. -/
theorem asks_workspaceGraph {roots : Path → Prop} {files : List Path} (h : ∀ f ∈ files, roots f) :
    (workspaceGraph files).Asks (fun _ => True) roots := by
  have hcount : ∀ n, (countParameters n).Asks (fun _ => True) roots := by
    intro n
    unfold countParameters
    split
    · exact (Asks.bind (asks_text_iff.2 trivial) fun _ => asks_pure _).bind fun _ => asks_pure _
    · exact asks_pure _
  refine (Asks.each fun f _ => ?_).bind fun own => (Asks.each fun f hf => ?_).bind fun found => ?_
  · exact (Asks.bind (asks_text_iff.2 trivial) fun _ => asks_pure _).bind fun _ => asks_pure _
  · exact (asks_outgoing trivial (h f hf)).bind fun _ => asks_pure _
  · exact (Asks.each fun n _ => hcount n).bind fun _ => asks_pure _

namespace Workspace

variable {tree : FileTree} {ws : Workspace}

/-- A build of a fresh index publishes what the files say, to anyone who remembers the roots that
are then known. -/
theorem buildIndexOf_fresh (h : ws.memory.cache.Agrees (fun _ => True) tree)
    (hpending : ws.index.pending = []) (files : List Path) : let built := ws.buildIndexOf tree files
    built.1 = true ∧
      built.2.index.snapshot = (indexFiles files).answer (tree.viewWith built.2.memory.roots id) ∧
      ∀ directory found, ws.memory.roots.find? directory = some found →
        built.2.memory.roots.find? directory = some found := by
  intro built
  have hbuilt : built = ws.beginBuild.1.endBuild tree ws.beginBuild.1.index.started files := rfl
  have hfresh : ws.beginBuild.1.index.pending = [] := hpending
  have hmemory : ws.beginBuild.1.memory = ws.memory := rfl
  rw [endBuild_eq, hmemory] at hbuilt
  have hanswer :
      ((ws.beginBuild.1.index.finish ws.beginBuild.1.index.started files).run tree ws.memory).1 =
      (ws.beginBuild.1.index.finish ws.beginBuild.1.index.started files).answer
        (tree.viewWith built.2.memory.roots id) := by
    refine run_fst_eq_viewWith h id fun directory found hfind => ?_
    rw [hbuilt]
    exact hfind
  rw [Index.finish, answer_bind, Index.answer_endBuild rfl, hfresh] at hanswer
  refine ⟨?_, ?_, fun directory found hfind => ?_⟩
  · rw [hbuilt]
    exact congrArg (·.1) hanswer
  · have hsnapshot := congrArg (·.2.snapshot) hanswer
    rw [hbuilt] at hsnapshot ⊢
    exact hsnapshot
  · rw [hbuilt]
    exact find?_roots_run_of_eq_some hfind _

/-- A fresh workspace is asked for the graph of some files, then for the graph of the same files in
another order, and then it builds its index for them. Both graphs depict the files, no node has
another kind for the order, and the index agrees with the edges. The references are those that the
workspace shows from then on. For files in normal form they are those that the tree itself shows. -/
theorem graph_depicts_files (reader : IgnoreReader) (tree : FileTree) (root : Path)
    (options : CorpusOptions) {files files' : List Path}
    (hfiles : files.Pairwise fun p q => (p == q) = false) (hsame : files'.Perm files) :
    let shown := (new reader tree root options).ask tree (workspaceGraph files)
    let again := shown.2.ask tree (workspaceGraph files')
    let built := again.2.buildIndexOf tree files
    let refs := fun f => (built.2.ask tree (outgoing f)).1
    let index := built.2.index.snapshot
    shown.1.Depicts files tree.view.text refs ∧ again.1.Depicts files' tree.view.text refs ∧
      (∀ m ∈ shown.1.nodes, ∀ n ∈ again.1.nodes, (m.key == n.key) = true → m.kind = n.kind) ∧
      built.1 = true ∧
      (∀ f ∈ files, ∀ t,
        let joins := ∃ e ∈ shown.1.edges, (e.source == .file f) = true ∧
          (e.target.path? == some t) = true
        (joins ↔ ∃ r ∈ index.forwardTargets f, (r.target == t) = true) ∧
          (joins ↔ (index.directCallers t).contains f = true)) ∧
      ((∀ f ∈ files, f.IsNormal) → ∀ f ∈ files, refs f = (outgoing f).answer tree.view) := by
  intro shown again built refs index
  have hsymm : Std.Symm fun p q : Path => (p == q) = false := ⟨fun _ _ hpq => by rwa [BEq.comm]⟩
  have hfiles' : files'.Pairwise fun p q => (p == q) = false :=
    (hsame.pairwise_iff (hsymm.symm _ _)).2 hfiles
  have hcache : again.2.memory.cache.Agrees (fun _ => True) tree :=
    cache_run_agrees (cache_run_agrees (Cache.agrees_empty _ _) _) _
  have hbuilt := buildIndexOf_fresh hcache rfl files
  obtain ⟨hpublished, hindex, hlater⟩ := hbuilt
  -- all answers are those of one view, which knows every root that was found on the way
  set view := tree.viewWith built.2.memory.roots id with hview
  have hshown : shown.1 = (workspaceGraph files).answer view :=
    run_fst_eq_viewWith (Cache.agrees_empty _ _) id fun _ _ hfind =>
      hlater _ _ (find?_roots_run_of_eq_some hfind _)
  have hagain : again.1 = (workspaceGraph files').answer view :=
    run_fst_eq_viewWith (cache_run_agrees (Cache.agrees_empty _ _) _) id fun _ _ hfind =>
      hlater _ _ hfind
  have hrefs : refs = fun f => (outgoing f).answer view := by
    have hcache' : built.2.memory.cache.Agrees (fun _ => True) tree := cache_run_agrees hcache _
    funext f
    exact run_fst_of_root (tree.sameFiles_viewWith _ id) hcache' (asks_outgoing trivial rfl)
      (FileTree.root_viewWith_of_eq rfl)
  have hdepicts : shown.1.Depicts files tree.view.text refs := by
    rw [hshown, hrefs]
    exact depicts_workspaceGraph hfiles view
  have hdepicts' : again.1.Depicts files' tree.view.text refs := by
    rw [hagain, hrefs]
    exact depicts_workspaceGraph hfiles' view
  have hderived : index.Derived := by
    rw [show index = _ from hindex]
    exact (Index.yields_indexFiles files).answer view
  have hforward : ∀ f ∈ files, index.forwardTargets f = (refs f).filterMap Outgoing.indexed? := by
    intro f hf
    rw [show index = _ from hindex, forwardTargets_indexFiles hfiles view hf, hrefs]
  refine ⟨hdepicts, hdepicts', fun m hm n hn => hdepicts.kind_eq hdepicts' hsame hm hn,
    hpublished, ?_, ?_⟩
  · intro f hf t joins
    have hjoins : joins ↔ ∃ r ∈ index.forwardTargets f, (r.target == t) = true := by
      rw [hforward f hf, any_filterMap_indexed?]
      exact hdepicts.exists_edge_iff hfiles hf t
    exact ⟨hjoins, hjoins.trans (hderived.contains_directCallers_iff f t).symm⟩
  · intro hnormal f hf
    have hempty : Memory.Agrees (fun _ => True) Path.IsNormal tree {} :=
      Memory.agrees_empty _ _ tree
    have hasks : ∀ {files : List Path}, (∀ f ∈ files, f.IsNormal) →
        (workspaceGraph files).Asks (fun _ => True) Path.IsNormal := asks_workspaceGraph
    have hmemory : again.2.beginBuild.1.memory.Agrees (fun _ => True) Path.IsNormal tree :=
      (hempty.run_snd (fun _ hp => hp) (hasks hnormal)).run_snd (fun _ hp => hp)
        (hasks fun p hp => hnormal p (hsame.mem_iff.1 hp))
    obtain ⟨memory, hafter, heq⟩ := endBuild_latest hmemory (fun _ hp => hp)
      (fun p hp => ⟨trivial, hnormal p hp⟩) (by intro change hchange; cases hchange)
    have hbuilt : built.2.memory = memory := congrArg (·.2.memory) heq
    exact (hbuilt ▸ hafter).run_fst (fun _ hp => hp) (asks_outgoing trivial (hnormal f hf))

/-- Two files, of which one refers to the other and to one that is missing. -/
theorem graph_depicts_two_files :
    let tree : FileTree :=
      .put (.put {} ["a.yml"] "steps:\n- template: b.yml\n- template: c.yml".toUTF8 none) ["b.yml"]
        "steps: []".toUTF8 none
    let a : Path := .address ["a.yml"]
    let b : Path := .address ["b.yml"]
    let shown := (new .ofRules tree ⟨"/"⟩ {}).ask tree (workspaceGraph [a, b])
    let again := shown.2.ask tree (workspaceGraph [b, a])
    let built := again.2.buildIndexOf tree [a, b]
    ([a, b].Pairwise fun p q => (p == q) = false) ∧ [b, a].Perm [a, b] ∧
      shown.1.Depicts [a, b] tree.view.text (fun f => (built.2.ask tree (outgoing f)).1) ∧
      shown.1.edges.length = 2 ∧ (built.2.index.snapshot.directCallers b).contains a = true := by
  intro tree a b
  have hfiles : [a, b].Pairwise fun p q => (p == q) = false := by decide +kernel
  have hsame : [b, a].Perm [a, b] := List.Perm.swap a b []
  obtain ⟨hdepicts, -, -, -, hindex, -⟩ := graph_depicts_files .ofRules tree ⟨"/"⟩ {} hfiles hsame
  obtain ⟨-, hcallers⟩ := hindex a List.mem_cons_self b
  refine ⟨hfiles, hsame, hdepicts, ?_, hcallers.1 ?_⟩
  · decide +kernel
  · decide +kernel

end Workspace

end TemplateAtlas
