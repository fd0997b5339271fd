import TemplateAtlas.Proofs.Drawing.Dot
import TemplateAtlas.Proofs.Drawing.Identity

/-!
# Clusters of a drawing

A drawing states each node in the cluster of its name (`clustersIn_document`). The name is that of
the repository which the node keeps, and next to the names of repositories stand three that are
reserved: one for the nodes without a repository, one for the undeclared aliases, and one for the
legend. So the clusters are the repositories that the nodes keep, except where a repository is
called by a reserved name (`clustersBy_groupsOf`). The nodes of a workspace keep the repository that
an alias leads to. The nodes of a tree keep none, and all of them that are no undeclared aliases are
printed together (`Workspace.clusters_of_drawings`).
-/

namespace TemplateAtlas

open Inquiry

namespace Dot

/-! ### Clusters in a text -/

/-- The parts of a graph by their names, with the statements of nodes in each. -/
def clustersIn : List Statement → List (String × List Statement)
  | [] => []
  | .opens kind name :: rest =>
    if kind = "subgraph" then (name, (rest.takeWhile (· ≠ .closes)).filter Statement.isNode) ::
      clustersIn rest
    else clustersIn rest
  | _ :: rest => clustersIn rest

/-- Nodes in groups that have names. -/
abbrev Groups :=
  List (String × List GraphNode)

/-- Are two nodes in one group? -/
def Together (groups : Groups) (m n : GraphNode) : Prop :=
  ∃ c ∈ groups, m ∈ c.2 ∧ n ∈ c.2

/-- The clusters that state the nodes of groups. -/
def clustersFor (theme : DotTheme) (groups : Groups) : List (String × List Statement) :=
  groups.map fun (name, members) => ("cluster_" ++ name, members.map (nodeStatement theme))

/-- The groups of nodes whose clusters have one name. -/
def groupsOf (nodes : List GraphNode) : Groups :=
  (clusterNames nodes).map fun name => (name, membersOf nodes name)

/-- The cluster of the legend, if there is one. -/
def legendCluster (options : DotOptions) : List (String × List Statement) :=
  if options.legend then [("cluster_legend", legendNodes options)] else []

section Reading

variable {statements rest : List Statement}

theorem clustersIn_append (h : ∀ s ∈ statements, ∀ kind name, s ≠ .opens kind name) :
    clustersIn (statements ++ rest) = clustersIn rest := by
  induction statements with
  | nil => rfl
  | cons s statements ih =>
    have hs := h s (by simp)
    have hrest := ih fun t ht => h t (by simp [ht])
    cases s with
    | opens kind name => exact absurd rfl (hs kind name)
    | _ => exact hrest

theorem ne_opens_of_isNode {s : Statement} (h : s.isNode = true) (kind name : String) :
    s ≠ .opens kind name := by
  rintro rfl
  cases h

/-- A block is read as its name with its nodes. -/
theorem clustersIn_blockStatements (name label colour : String) {nodes : List Statement}
    (h : ∀ s ∈ nodes, s.isNode = true) (rest : List Statement) :
    clustersIn (blockStatements name label colour nodes ++ rest) =
      (name, nodes) :: clustersIn rest := by
  have hnodes : ∀ s ∈ nodes, decide (s ≠ .closes) = true := by
    intro s hs
    refine decide_eq_true fun heq => ?_
    have := h s hs
    rw [heq] at this
    cases this
  have hinside : ((.setting "label" label :: .setting "color" colour :: (nodes ++ .closes :: rest) :
      List Statement).takeWhile (· ≠ .closes)).filter Statement.isNode = nodes := by
    rw [List.takeWhile_cons_of_pos (by simp), List.takeWhile_cons_of_pos (by simp),
      List.takeWhile_append_of_pos hnodes, List.takeWhile_cons_of_neg (by simp), List.append_nil]
    exact List.filter_eq_self.2 h
  have hbehind : clustersIn (nodes ++ .closes :: rest) = clustersIn (.closes :: rest) :=
    clustersIn_append fun s hs => ne_opens_of_isNode (h s hs)
  rw [blockStatements, List.append_assoc, List.append_assoc]
  exact congrArg₂ List.cons (congrArg (Prod.mk name) hinside) hbehind

/-- The blocks of nodes are read as the names with their members. -/
theorem clustersIn_nodeBlocks (theme : DotTheme) (nodes : List GraphNode) (names : List String) :
    clustersIn ((names.flatMap fun name =>
        blockStatements ("cluster_" ++ name) name "lightgrey"
          ((membersOf nodes name).map (nodeStatement theme))) ++
          rest) =
      names.map (fun name =>
        ("cluster_" ++ name, (membersOf nodes name).map (nodeStatement theme))) ++
        clustersIn rest := by
  induction names with
  | nil => rfl
  | cons name names ih =>
    rw [List.flatMap_cons, List.append_assoc,
      clustersIn_blockStatements _ _ _ isNode_of_mem_map_nodeStatement, ih]
    rfl

/-- The clusters of a drawing are those of the nodes whose clusters have one name, and that of the
legend. -/
theorem clustersIn_document (g : Graph) {options : DotOptions} (h : options.clusters = true) :
    clustersIn (document g options) = clustersFor options.theme (groupsOf g.nodes) ++
      legendCluster options := by
  have hheader : ∀ rest, clustersIn (headerStatements options ++ rest) =
      clustersIn rest := fun _ => rfl
  have hedges : ∀ rest, clustersIn (g.edges.map (edgeStatement g) ++ rest) = clustersIn rest := by
    refine fun rest => clustersIn_append fun s hs kind name heq => ?_
    have := isEdge_of_mem_map_edgeStatement s hs
    rw [heq] at this
    cases this
  have hlegend : clustersIn (legendStatements options ++ [.closes]) = legendCluster options := by
    unfold legendStatements legendCluster
    split
    next hshown =>
      rw [clustersIn_blockStatements _ _ _ isNode_of_mem_legendNodes, legendNodes, if_pos hshown]
      rfl
    · rfl
  rw [document, nodeStatements, if_pos h, List.append_assoc, List.append_assoc, List.append_assoc,
    hheader, clustersIn_nodeBlocks, hedges, hlegend, clustersFor, groupsOf, List.map_map]
  rfl

end Reading

/-! ### Who is printed together -/

/-- The name of the cluster of a node, from the repository that it keeps. -/
def clusterName (repository? : NodeKey → Option String) (key : NodeKey) : String :=
  if key.baseKind = .unknownAlias then unresolvedCluster else (repository? key).getD ownCluster

section Nodes

variable {nodes : List GraphNode} {repository? : NodeKey → Option String}

theorem clusterOf_eq_clusterName {n : GraphNode} (hfits : n.kind.Fits n.key)
    (h : n.repository? = repository? n.key) : clusterOf n = clusterName repository? n.key := by
  rw [clusterName, ← h]
  split
  next halias => rw [clusterOf, hfits.2 halias]
  next hknown =>
    have hkind : n.kind ≠ .unknownAlias := fun halias => hknown (hfits.1 halias)
    rw [clusterOf]
    cases hn : n.kind with
    | unknownAlias => exact absurd hn hkind
    | _ => rfl

/-- Two nodes are in one group exactly if their clusters have one name. -/
theorem together_groupsOf_iff {m n : GraphNode} (hm : m ∈ nodes) (hn : n ∈ nodes) :
    Together (groupsOf nodes) m n ↔ clusterOf m = clusterOf n := by
  constructor
  · rintro ⟨c, hc, hfirst, hsecond⟩
    obtain ⟨name, -, rfl⟩ := List.mem_map.1 hc
    rw [of_decide_eq_true (List.mem_filter.1 hfirst).2,
      of_decide_eq_true (List.mem_filter.1 hsecond).2]
  · intro heq
    refine ⟨_, List.mem_map_of_mem (mem_clusterNames_iff.2 ⟨m, hm, rfl⟩), ?_, ?_⟩
    · exact List.mem_filter.2 ⟨hm, decide_eq_true rfl⟩
    · exact List.mem_filter.2 ⟨hn, decide_eq_true heq.symm⟩

end Nodes

/-! ### Clusters and repositories -/

/-- Groups of nodes follow the repositories of the nodes, except for the reserved names. -/
structure ClustersBy (nodes : List GraphNode) (repository? : NodeKey → Option String)
    (groups : Groups) : Prop where
  /-- Each node is in one group. -/
  members : (groups.flatMap (·.2)).Perm nodes
  /-- Of nodes that are no undeclared aliases, those of one repository are together, and besides
  them those without a repository with those of the repository that has the name of their
  cluster. -/
  known : ∀ m ∈ nodes, ∀ n ∈ nodes, m.kind ≠ .unknownAlias → n.kind ≠ .unknownAlias →
    (Together groups m n ↔ repository? m.key = repository? n.key ∨
      (repository? m.key = none ∧ repository? n.key = some ownCluster) ∨
      (repository? m.key = some ownCluster ∧ repository? n.key = none))
  /-- An undeclared alias is together with the nodes of the repository that has the name of its
  cluster. -/
  undeclared : ∀ m ∈ nodes, ∀ n ∈ nodes, m.kind = .unknownAlias → n.kind ≠ .unknownAlias →
    (Together groups m n ↔ repository? n.key = some unresolvedCluster)
  /-- Only the cluster of one repository is called like the legend. -/
  legend : "cluster_legend" ∈ groups.map (fun c => "cluster_" ++ c.1) ↔
    ∃ n ∈ nodes, n.kind ≠ .unknownAlias ∧ repository? n.key = some "legend"

section Names

variable {nodes : List GraphNode} {repository? : NodeKey → Option String}

theorem getD_eq_ownCluster_iff (r s : Option String) :
    r.getD ownCluster = s.getD ownCluster ↔
      r = s ∨ (r = none ∧ s = some ownCluster) ∨ (r = some ownCluster ∧ s = none) := by
  cases r <;> cases s <;> simp [eq_comm]

theorem getD_eq_iff_of_ne (r : Option String) {name : String} (h : ownCluster ≠ name) :
    r.getD ownCluster = name ↔ r = some name := by
  cases r with
  | none => simp [h]
  | some s => simp

/-- The groups of nodes that keep their repositories follow them. -/
theorem clustersBy_groupsOf
    (h : ∀ n ∈ nodes, n.kind.Fits n.key ∧ n.repository? = repository? n.key) :
    ClustersBy nodes repository? (groupsOf nodes) := by
  have hname : ∀ n ∈ nodes, clusterOf n = clusterName repository? n.key := fun n hn =>
    clusterOf_eq_clusterName (h n hn).1 (h n hn).2
  have hknown : ∀ n ∈ nodes, n.kind ≠ .unknownAlias →
      clusterName repository? n.key = (repository? n.key).getD ownCluster := fun n hn hkind =>
    if_neg fun halias => hkind ((h n hn).1.2 halias)
  have hundeclared : ∀ n ∈ nodes, n.kind = .unknownAlias → clusterName repository? n.key =
      unresolvedCluster :=
    fun n hn hkind => if_pos ((h n hn).1.1 hkind)
  refine ⟨?_, fun m hm n hn hmkind hnkind => ?_, fun m hm n hn hmkind hnkind => ?_, ?_⟩
  · rw [groupsOf, List.flatMap_map]
    exact perm_members nodes
  · rw [together_groupsOf_iff hm hn, hname m hm, hname n hn, hknown m hm hmkind, hknown n hn hnkind,
      getD_eq_ownCluster_iff]
  · rw [together_groupsOf_iff hm hn, hname m hm, hname n hn, hundeclared m hm hmkind,
      hknown n hn hnkind, eq_comm, getD_eq_iff_of_ne _ (by decide)]
  · have hcalled : ∀ name, ("cluster_" ++ name = "cluster_legend") ↔ name = "legend" := by
      intro name
      have hparts : "cluster_legend" = "cluster_" ++ "legend" := rfl
      rw [hparts, ← String.toList_inj, String.toList_append, String.toList_append,
        List.append_cancel_left_eq, String.toList_inj]
    have hnames : "cluster_legend" ∈ (groupsOf nodes).map (fun c => "cluster_" ++ c.1) ↔
        "legend" ∈ clusterNames nodes := by
      rw [groupsOf, List.map_map, List.mem_map]
      simp only [Function.comp_apply, hcalled, exists_eq_right]
    rw [hnames, mem_clusterNames_iff]
    refine exists_congr fun n => and_congr_right fun hn => ?_
    by_cases hkind : n.kind = .unknownAlias
    · rw [hname n hn, hundeclared n hn hkind]
      simp [hkind, unresolvedCluster]
    · rw [hname n hn, hknown n hn hkind, getD_eq_iff_of_ne _ (by decide)]
      simp [hkind]

end Names

end Dot

/-! ### Drawings of a workspace -/

open Dot

/-- In the drawing of the graph of a workspace, the clusters follow the repositories that aliases
lead to, except for those with a reserved name. In the drawing of a tree they follow nothing: all
nodes that are no undeclared aliases are printed together, as if none belonged to a repository. -/
theorem Workspace.clusters_of_drawings (ws : Workspace) {tree : FileTree}
    (hcache : ws.memory.cache.Agrees (fun _ => True) tree) (files : List Path)
    {options : DotOptions} (hclusters : options.clusters = true) :
    let shown := ws.ask tree (workspaceGraph files)
    let refs := fun f => (shown.2.ask tree (outgoing f)).1
    (∃ statements groups, read (render shown.1 options) = some statements ∧
      clustersIn statements = clustersFor options.theme groups ++ legendCluster options ∧
      ClustersBy shown.1.nodes (repositoryAt? (files.flatMap refs)) groups) ∧
    ∀ (t : Tree) (direction : EdgeDirection),
      (∃ file depth, t = (ws.templateTree tree file depth).1 ∨
        t = (ws.callerTree tree file depth).1) →
      ∃ statements groups, read (render (t.toGraph direction) options) = some statements ∧
        clustersIn statements = clustersFor options.theme groups ++ legendCluster options ∧
        ClustersBy (t.toGraph direction).nodes (fun _ => none) groups := by
  intro shown refs
  constructor
  · set view := tree.viewWith shown.2.memory.roots id with hview
    have hshown : shown.1 = (workspaceGraph files).answer view :=
      run_fst_eq_viewWith hcache id fun _ _ hfind => hfind
    have hrefs : refs = fun f => (outgoing f).answer view := by
      have hcache' : shown.2.memory.cache.Agrees (fun _ => True) tree := cache_run_agrees hcache _
      funext f
      exact run_fst_of_root (tree.sameFiles_viewWith _ id) hcache' (asks_outgoing trivial rfl)
        (FileTree.root_viewWith_of_eq rfl)
    refine ⟨_, _, read_render shown.1 options, clustersIn_document shown.1 hclusters,
      clustersBy_groupsOf ?_⟩
    intro n hn
    rw [hshown] at hn
    obtain ⟨m, hm, hkey, hkind, hrepository⟩ := exists_mem_drawn_of_mem hn
    rw [hkey, hkind, hrepository, hrefs]
    exact ⟨Graph.fits_of_mem_drawn hm, Graph.repository?_of_mem_drawn hm⟩
  · rintro t direction ⟨file, depth, htree⟩
    have hfits : t.KindsFit := by
      rcases htree with rfl | rfl
      · exact kindsFit_templateTree ws tree file depth
      · exact kindsFit_callerTree ws tree file depth
    refine ⟨_, _, read_render _ options, clustersIn_document _ hclusters,
      clustersBy_groupsOf fun n hn => ?_⟩
    obtain ⟨hrepository, hkind⟩ :=
      @Tree.nodes_toGraph (fun key kind => kind.Fits key) t direction hfits n hn
    exact ⟨hkind, hrepository⟩

/-- Of two files in two repositories, the graph of the workspace shows each in a cluster of its own,
and the tree of what the first refers to shows both in one. -/
theorem Workspace.clusters_of_two_repositories :
    let tree : FileTree :=
      .put (.put (.makeDirectories (.makeDirectories {} ["home"]) ["lib"]) ["home", "a"]
        "resources:\n repositories:\n - repository: x\n   name: lib\n- template: b@x".toUTF8 none)
          ["lib", "b"] "".toUTF8 none
    let ws := new .ofRules tree ⟨"/home"⟩ {}
    let shown := (ws.ask tree (workspaceGraph [⟨"/home/a"⟩])).1
    let flat := (ws.templateTree tree ⟨"/home/a"⟩ 5).1.toGraph .toTemplates
    let files := fun (g : Graph) (related : GraphNode → GraphNode → Prop) =>
      ∃ m ∈ g.nodes, ∃ n ∈ g.nodes,
      m.key.id = "file:/home/a" ∧ n.key.id = "file:/lib/b" ∧ related m n
    (∃ statements groups, read (render shown {}) = some statements ∧
      clustersIn statements = clustersFor .light groups ++ legendCluster {} ∧
      files shown fun m n => ¬Together groups m n) ∧
    ∃ statements groups, read (render flat {}) = some statements ∧
      clustersIn statements = clustersFor .light groups ++ legendCluster {} ∧
      files flat fun m n => Together groups m n := by
  intro tree ws shown flat files
  have hkey : ∀ (n : GraphNode) (p : Path), '\ufffd' ∉ (NodeKey.file p).id.toList →
      n.key.id = (NodeKey.file p).id →
      n.key = .file p := by
    intro n p htext hid
    rcases NodeKey.shownAlike_or_of_id hid with halike | ⟨-, halias⟩
    · exact halike.eq (hid ▸ htext)
    · cases halias
  have hmem : ∀ (g : Graph) id kind, (id, kind) ∈ g.nodes.map (fun n => (n.key.id, n.kind)) →
      ∃ n ∈ g.nodes, n.key.id = id ∧ n.kind = kind := by
    intro g id kind h
    obtain ⟨n, hn, heq⟩ := List.mem_map.1 h
    exact ⟨n, hn, congrArg Prod.fst heq, congrArg Prod.snd heq⟩
  obtain ⟨⟨statements, groups, hread, hclusters, hby⟩, htrees⟩ :=
    clusters_of_drawings ws (Cache.agrees_empty _ tree) [⟨"/home/a"⟩]
      (show ({} : DotOptions).clusters = true from rfl)
  obtain ⟨statements', groups', hread', hclusters', hby'⟩ :=
    htrees _ .toTemplates ⟨⟨"/home/a"⟩, 5, .inl rfl⟩
  have hnodes : shown.nodes.map (fun n => (n.key.id, n.kind)) =
      [("file:/home/a", .template), ("file:/lib/b", .external)] := by
    decide +kernel
  have hnodes' : flat.nodes.map (fun n => (n.key.id, n.kind)) =
      [("file:/home/a", .template), ("file:/lib/b", .external)] := by
    decide +kernel
  have hrepositories :
      let repository? := repositoryAt? ([⟨"/home/a"⟩].flatMap fun f =>
        ((ws.ask tree (workspaceGraph [⟨"/home/a"⟩])).2.ask tree (outgoing f)).1)
      (repository? (.file ⟨"/home/a"⟩), repository? (.file ⟨"/lib/b"⟩)) = (none, some "lib") := by
    decide +kernel
  obtain ⟨hown, hforeign⟩ := Prod.mk.inj hrepositories
  refine ⟨⟨statements, groups, hread, hclusters, ?_⟩, statements', groups', hread', hclusters', ?_⟩
  · obtain ⟨m, hm, hmid, hmkind⟩ := hmem shown "file:/home/a" .template (by simp [hnodes])
    obtain ⟨n, hn, hnid, hnkind⟩ := hmem shown "file:/lib/b" .external (by simp [hnodes])
    refine ⟨m, hm, n, hn, hmid, hnid, fun htogether => ?_⟩
    have hsame := (hby.known m hm n hn (by simp [hmkind]) (by simp [hnkind])).1 htogether
    rw [hkey m ⟨"/home/a"⟩ (by decide +kernel) hmid, hkey n ⟨"/lib/b"⟩ (by decide +kernel) hnid,
      hown, hforeign] at hsame
    revert hsame
    decide
  · obtain ⟨m, hm, hmid, hmkind⟩ := hmem flat "file:/home/a" .template (by simp [hnodes'])
    obtain ⟨n, hn, hnid, hnkind⟩ := hmem flat "file:/lib/b" .external (by simp [hnodes'])
    exact ⟨m, hm, n, hn, hmid, hnid,
      (hby'.known m hm n hn (by simp [hmkind]) (by simp [hnkind])).2 (.inl rfl)⟩

end TemplateAtlas
