import Mathlib.Data.List.Perm.Basic
import TemplateAtlas.Proofs.Drawing.DotReader
import TemplateAtlas.Proofs.SortedMap

/-!
# What a drawing says

The statements that a graph is drawn by are the header, the nodes in their clusters, the edges and
the legend (`document`), with every text of the graph as it is. The text of the drawing reads as
these statements and no others (`read_render`): each line does, since all that comes from the graph
stands in quotes, and the lines do so one after the other. Hence the nodes and edges of the graph
can be read off its drawing (`drawing_decodes`).
-/

namespace TemplateAtlas.Dot

open TemplateAtlas.Text

/-! ### Statements of a drawing -/

/-- The text shown in a node. The backslash and the letter that begin the second line stay as they
are. -/
def shownLabel (node : GraphNode) : String :=
  node.label ++
    (if 0 < node.parameterCount then
      "\\n" ++ toString node.parameterCount ++ " params (" ++
        toString node.requiredCount ++ " required)"
      else "")

/-- A node of the graph. -/
def nodeStatement (theme : DotTheme) (node : GraphNode) : Statement :=
  .node node.key.id
    [("label", shownLabel node), ("fillcolor", fillColour theme node.kind),
      ("shape", nodeShape node.kind),
      ("tooltip", node.key.description)]

/-- An edge of the graph. -/
def edgeStatement (g : Graph) (edge : GraphEdge) : Statement :=
  .edge edge.source.id edge.target.id
    [("label", edge.label?.getD ""), ("color", (edgeStyle g edge).colour),
      ("style", (edgeStyle g edge).line)]

/-- What opens the graph, with the settings for all of it. -/
def headerStatements (options : DotOptions) : List Statement :=
  [.opens "digraph" "Pipelines",
    .setting "rankdir" (rankName options.ranks),
    .defaults "graph" [("fontname", "Helvetica"), ("splines", edgeShapeName options.edges)],
    .defaults "node" [("shape", "box"), ("fontsize", "10"),
      ("style", if options.rounded then "filled,rounded" else "filled")],
    .defaults "edge" [("fontname", "Helvetica"), ("fontsize", "9")]]

/-- A block with a label and a colour. -/
def blockStatements (name label colour : String) (nodes : List Statement) : List Statement :=
  [.opens "subgraph" name, .setting "label" label, .setting "color" colour] ++ nodes ++ [.closes]

/-- The names of the clusters of nodes, each once, in ascending order. -/
def clusterNames (nodes : List GraphNode) : List String :=
  (SortedSet.ofList (nodes.map clusterOf)).toList

/-- The nodes of a cluster, in the order of the graph. -/
def membersOf (nodes : List GraphNode) (name : String) : List GraphNode :=
  nodes.filter fun node => clusterOf node = name

/-- The nodes of the graph, in their clusters if there are any. -/
def nodeStatements (options : DotOptions) (nodes : List GraphNode) : List Statement :=
  if options.clusters then
    (clusterNames nodes).flatMap fun name =>
      blockStatements ("cluster_" ++ name) name "lightgrey"
        ((membersOf nodes name).map (nodeStatement options.theme))
  else nodes.map (nodeStatement options.theme)

/-- The node of the legend that explains a kind. -/
def legendNode (theme : DotTheme) (kind : NodeKind) : Statement :=
  .node ("legend_" ++ kind.shortName)
    [("label", kind.shortName), ("fillcolor", fillColour theme kind), ("shape", nodeShape kind)]

/-- The nodes of the legend, if there is one. -/
def legendNodes (options : DotOptions) : List Statement :=
  if options.legend then NodeKind.all.map (legendNode options.theme) else []

/-- The legend, if there is one. -/
def legendStatements (options : DotOptions) : List Statement :=
  if options.legend then blockStatements "cluster_legend" "Legend" "grey"
    (legendNodes options) else []

/-- All statements of a drawing. -/
def document (g : Graph) (options : DotOptions) : List Statement :=
  headerStatements options ++ nodeStatements options g.nodes ++ g.edges.map (edgeStatement g) ++
    legendStatements options ++ [.closes]

/-! ### Clusters -/

theorem clustersOf_append_singleton (nodes : List GraphNode) (node : GraphNode) :
    clustersOf (nodes ++ [node]) = (clustersOf nodes).insert (clusterOf node)
      (((clustersOf nodes).find? (clusterOf node)).getD [] ++ [node]) := by
  rw [clustersOf, List.foldl_append]
  rfl

/-- A cluster has its members, in the order of the graph; there is none without members. -/
theorem find?_clustersOf (nodes : List GraphNode) (name : String) :
    (clustersOf nodes).find? name = if membersOf nodes name =
      [] then none else some (membersOf nodes name) := by
  induction nodes using List.reverseRecOn generalizing name with
  | nil => rfl
  | append_singleton nodes node ih =>
    have hmembers : membersOf (nodes ++ [node]) name =
        membersOf nodes name ++ if clusterOf node = name then [node] else [] := by
      rw [membersOf, List.filter_append, List.filter_singleton]
      simp [membersOf]
    rw [clustersOf_append_singleton, SortedMap.find?_insert, hmembers, ih, ih]
    by_cases hname : clusterOf node = name
    · subst hname
      by_cases hnone : membersOf nodes (clusterOf node) = [] <;> simp [hnone]
    · have hcompare : compare name (clusterOf node) ≠ .eq :=
        fun h => hname (Std.LawfulEqCmp.eq_of_compare h).symm
      simp [hname, hcompare]

theorem mem_clusterNames_iff {nodes : List GraphNode} {name : String} :
    name ∈ clusterNames nodes ↔ ∃ node ∈ nodes, clusterOf node = name := by
  constructor
  · intro h
    simpa using SortedSet.mem_ofList h
  · rintro ⟨node, hmem, rfl⟩
    have hcontains : SortedMap.contains (SortedSet.ofList (nodes.map clusterOf)) (clusterOf node) =
        true :=
      SortedSet.contains_ofList.2 ⟨clusterOf node, List.mem_map_of_mem hmem,
        Std.ReflCmp.compare_self⟩
    obtain ⟨name, hname, heq⟩ := SortedMap.contains_eq_true_iff.1 hcontains
    rwa [Std.LawfulEqCmp.eq_of_compare heq]

/-- The clusters are the names of the nodes' clusters with their members. -/
theorem entries_clustersOf (nodes : List GraphNode) :
    (clustersOf nodes).entries = (clusterNames nodes).map fun name =>
      (name, membersOf nodes name) := by
  have hvalue : ∀ e ∈ (clustersOf nodes).entries, e.2 = membersOf nodes e.1 ∧
      membersOf nodes e.1 ≠ [] := by
    intro e he
    have hfind := SortedMap.find?_of_mem he
    rw [find?_clustersOf] at hfind
    split at hfind
    · cases hfind
    next hne => exact ⟨(Option.some.inj hfind).symm, hne⟩
  have hkeys : (clustersOf nodes).keys = clusterNames nodes := by
    refine eq_of_pairwise_lt (SortedMap.pairwise_keys _) (SortedMap.pairwise_keys _) fun name => ?_
    rw [SortedMap.mem_keys_iff, mem_clusterNames_iff]
    constructor
    · rintro ⟨members, hmem⟩
      obtain ⟨node, hnode⟩ := List.exists_mem_of_ne_nil _ (hvalue _ hmem).2
      rw [membersOf, List.mem_filter, decide_eq_true_eq] at hnode
      exact ⟨node, hnode⟩
    · rintro ⟨node, hnode, rfl⟩
      have hne : membersOf nodes (clusterOf node) ≠ [] :=
        List.ne_nil_of_mem (List.mem_filter.2 ⟨hnode, by simp⟩)
      have hfind := find?_clustersOf nodes (clusterOf node)
      rw [if_neg hne] at hfind
      obtain ⟨name, hmem, heq⟩ := SortedMap.find?_eq_some_iff.1 hfind
      obtain rfl : clusterOf node = name := Std.LawfulEqCmp.eq_of_compare heq
      exact ⟨_, hmem⟩
  rw [← hkeys, SortedMap.keys, List.map_map]
  refine (List.map_id _).symm.trans (List.map_congr_left fun e he => ?_)
  exact Prod.ext rfl (hvalue e he).1

/-- The members of all clusters are the nodes. -/
theorem flatMap_membersOf_perm (nodes : List GraphNode) {names : List String} (hnames : names.Nodup)
    (hall : ∀ node ∈ nodes, clusterOf node ∈ names) :
    (names.flatMap (membersOf nodes)).Perm nodes := by
  induction nodes with
  | nil => simp [membersOf]
  | cons node nodes ih =>
    have hcons : membersOf (node :: nodes) = fun name =>
        (if clusterOf node = name then [node] else []) ++ membersOf nodes name := by
      funext name
      by_cases h : clusterOf node = name <;> simp [membersOf, h]
    have hone : (names.flatMap fun name => if clusterOf node = name then [node] else []) =
        [node] := by
      obtain ⟨front, rest, rfl⟩ := List.append_of_mem (hall node (by simp))
      have hapart := List.nodup_middle.1 hnames
      have hother : ∀ name ∈ front ++ rest,
          (if clusterOf node = name then [node] else []) = [] := by
        rintro name hmem
        refine if_neg ?_
        rintro rfl
        exact (List.nodup_cons.1 hapart).1 hmem
      rw [List.flatMap_append, List.flatMap_cons, if_pos rfl,
        List.flatMap_eq_nil_iff.2 fun name hmem => hother name (by simp [hmem]),
        List.flatMap_eq_nil_iff.2 fun name hmem => hother name (by simp [hmem])]
      rfl
    rw [hcons]
    refine (List.flatMap_append_perm names _ _).symm.trans ?_
    rw [hone]
    exact (ih fun n hn => hall n (by simp [hn])).cons node

/-- Each node is in the cluster of its name, and in no other. -/
theorem perm_members (nodes : List GraphNode) :
    ((clusterNames nodes).flatMap (membersOf nodes)).Perm nodes := by
  refine flatMap_membersOf_perm nodes ?_ fun node hmem => mem_clusterNames_iff.2 ⟨node, hmem, rfl⟩
  exact (SortedMap.pairwise_keys _).imp fun hlt heq => by simp [heq] at hlt

/-! ### Lines of a drawing -/

section Lines

variable {indent id writtenId : String} {written texts : List (String × String)}

theorem reads_node (hindent : Runs .between indent.toList [] .between) (hid : Inside writtenId id)
    (hsettings : List.Forall₂ WrittenAs written texts) (hne : texts ≠ []) :
    Reads [indent ++ quoted writtenId ++ " " ++ settings written ++ ";"] [.node id texts] := by
  have hspace : Runs .between " ".toList [] .between := by decide
  refine .of_statement? (.quoted id :: .openBracket :: settingTokens texts) ?_ ?_ ?_
  · rw [String.toList_append, String.toList_append, String.toList_append]
    exact ((hindent.append (runs_quoted hid)).append hspace).append (runs_settings hsettings)
  · simp only [List.forall_mem_cons]
    exact ⟨rfl, rfl, isSeparator_of_mem_settingTokens texts⟩
  · rw [statement?, settings?_settingTokens hne]
    rfl

theorem reads_edge {target writtenTarget : String} (hid : Inside writtenId id)
    (htarget : Inside writtenTarget target) (hsettings : List.Forall₂ WrittenAs written texts)
    (hne : texts ≠ []) :
    Reads ["  " ++ quoted writtenId ++ " -> " ++ quoted writtenTarget ++ " " ++
      settings written ++ ";"]
      [.edge id target texts] := by
  have hindent : Runs .between "  ".toList [] .between := by decide
  have harrow : Runs .between " -> ".toList [.arrow] .between := by decide
  have hspace : Runs .between " ".toList [] .between := by decide
  refine .of_statement?
    (.quoted id :: .arrow :: .quoted target :: .openBracket :: settingTokens texts) ?_ ?_ ?_
  · rw [String.toList_append, String.toList_append, String.toList_append, String.toList_append,
      String.toList_append]
    exact ((((hindent.append (runs_quoted hid)).append harrow).append (runs_quoted htarget)).append
      hspace).append (runs_settings hsettings)
  · simp only [List.forall_mem_cons]
    exact ⟨rfl, rfl, rfl, rfl, isSeparator_of_mem_settingTokens texts⟩
  · simp [statement?, settings?_settingTokens hne, Token.id?]

theorem reads_setting {name writtenText text : String} (hname : IsName name)
    (htext : Inside writtenText text) :
    Reads ["    " ++ setting name writtenText ++ ";"] [.setting name text] := by
  have hindent : Runs .between "    ".toList [] .between := by decide
  refine .of_statement? ([.word name, .equals, .quoted text]) ?_ (by simp [Token.isSeparator]) rfl
  rw [String.toList_append]
  exact hindent.append (runs_setting hname htext)

/-- The line that opens a block. -/
theorem reads_opens (hid : Inside writtenId id) :
    Reads ["  subgraph " ++ quoted writtenId ++ " \x7b"] [.opens "subgraph" id] := by
  have hkind : Runs .between "  subgraph ".toList [.word "subgraph"] .between := by decide
  have hbrace : Runs .between " \x7b\n".toList [.openBrace] .between := by decide
  refine ⟨[.word "subgraph", .quoted id, .openBrace], ?_, rfl⟩
  rw [List.map_singleton, String.toList_join, List.flatMap_singleton, String.append_assoc,
    String.toList_append, String.toList_append]
  exact (hkind.append (runs_quoted hid)).append hbrace

/-- Lines without texts of the graph are read by running the automaton. -/
theorem reads_of_run {lines : List String} {statements : List Statement}
    (h : (Lexing.between.run (String.join (lines.map (· ++ "\n"))).toList).bind
      (fun r => if r.2 = .between then statementsFrom [] r.1 else none) = some statements) :
    Reads lines statements := by
  obtain ⟨⟨tokens, last⟩, hrun, hread⟩ := Option.bind_eq_some_iff.1 h
  split at hread
  next hlast => exact ⟨tokens, by rw [Runs, hrun, ← hlast], hread⟩
  · cases hread

theorem reads_header (options : DotOptions) :
    Reads (header options) (headerStatements options) := by
  have hopens : Reads ["digraph Pipelines", "\x7b"] [.opens "digraph" "Pipelines"] :=
    reads_of_run (by decide)
  have hranks : Reads ["  rankdir=" ++ rankName options.ranks ++ ";"]
      [.setting "rankdir" (rankName options.ranks)] := by
    cases options.ranks <;> exact reads_of_run (by decide)
  have hgraph : Reads ["  graph [fontname=Helvetica, splines=" ++
      edgeShapeName options.edges ++ "] ;"]
      [.defaults "graph" [("fontname", "Helvetica"),
        ("splines", edgeShapeName options.edges)]] := by
    cases options.edges <;> exact reads_of_run (by decide +kernel)
  have hnodes : Reads ["  node [shape=box, fontsize=10, " ++
        setting "style" (if options.rounded then "filled,rounded" else "filled") ++ "] ;"]
      [.defaults "node" [("shape", "box"), ("fontsize", "10"),
        ("style", if options.rounded then "filled,rounded" else "filled")]] := by
    cases options.rounded <;> exact reads_of_run (by decide +kernel)
  have hedges : Reads ["  edge [fontname=Helvetica, fontsize=9];"]
      [.defaults "edge" [("fontname", "Helvetica"), ("fontsize", "9")]] :=
        reads_of_run (by decide +kernel)
  exact hopens.append (hranks.append (hgraph.append (hnodes.append hedges)))

theorem reads_closes : Reads ["  \x7d"] [.closes] :=
  reads_of_run (by decide)

end Lines

/-! ### Texts of a drawing -/

theorem inside_toString (n : Nat) : Inside (toString n) (toString n) := by
  refine .of_plain ⟨fun hslash => ?_, fun hquote => ?_⟩
  · exact absurd (isDigit_of_mem_toString hslash) (by decide)
  · exact absurd (isDigit_of_mem_toString hquote) (by decide)

theorem inside_nodeLabel (node : GraphNode) : Inside (nodeLabel node) (shownLabel node) := by
  have hbreak : Inside "\\n" "\\n" := by
    intro front
    rfl
  have hparams : Inside " params (" " params (" := .of_plain (by decide)
  have hrequired : Inside " required)" " required)" := .of_plain (by decide)
  refine (Inside.escape _).append ?_
  split
  · exact (((hbreak.append (inside_toString _)).append hparams).append (inside_toString _)).append
      hrequired
  · exact .of_plain (by decide)

theorem inside_fillColour (theme : DotTheme) (kind : NodeKind) :
    Inside (fillColour theme kind) (fillColour theme kind) := by
  cases theme <;> cases kind <;> exact .of_plain (by decide)

theorem inside_nodeShape (kind : NodeKind) : Inside (nodeShape kind) (nodeShape kind) := by
  cases kind <;> exact .of_plain (by decide)

theorem inside_shortName (kind : NodeKind) : Inside kind.shortName kind.shortName := by
  cases kind <;> exact .of_plain (by decide)

theorem inside_edgeStyle (g : Graph) (edge : GraphEdge) :
    Inside (edgeStyle g edge).colour (edgeStyle g edge).colour ∧
      Inside (edgeStyle g edge).line (edgeStyle g edge).line := by
  unfold edgeStyle
  split
  · exact ⟨.of_plain (by decide), .of_plain (by decide)⟩
  · split
    · exact ⟨.of_plain (by decide), .of_plain (by decide)⟩
    · exact ⟨.of_plain (by decide), .of_plain (by decide)⟩

/-! ### Reading a drawing -/

/-- A setting in front of others. -/
theorem writtenAs_cons {name writtenText text : String} {written texts : List (String × String)}
    (hname : IsName name) (h : Inside writtenText text)
    (hrest : List.Forall₂ WrittenAs written texts) :
    List.Forall₂ WrittenAs ((name, writtenText) :: written) ((name, text) :: texts) :=
  .cons ⟨rfl, hname, h⟩ hrest

theorem reads_nodeLine (theme : DotTheme) {indent : String}
    (hindent : Runs .between indent.toList [] .between) (node : GraphNode) :
    Reads [nodeLine theme indent node] [nodeStatement theme node] := by
  refine reads_node hindent (.escape _) ?_ (by simp)
  apply writtenAs_cons (by decide) (inside_nodeLabel node)
  apply writtenAs_cons (by decide) (inside_fillColour theme node.kind)
  apply writtenAs_cons (by decide) (inside_nodeShape node.kind)
  exact writtenAs_cons (by decide) (.escape _) .nil

theorem reads_edgeLine (g : Graph) (edge : GraphEdge) :
    Reads [edgeLine g edge] [edgeStatement g edge] := by
  obtain ⟨hcolour, hline⟩ := inside_edgeStyle g edge
  refine reads_edge (.escape _) (.escape _) ?_ (by simp)
  apply writtenAs_cons (by decide) (.escape _)
  apply writtenAs_cons (by decide) hcolour
  exact writtenAs_cons (by decide) hline .nil

theorem reads_legendLine (theme : DotTheme) (kind : NodeKind) :
    Reads [legendLine theme kind] [legendNode theme kind] := by
  have hid : Inside "legend_" "legend_" := .of_plain (by decide)
  refine reads_node (by decide) (hid.append (inside_shortName kind)) ?_ (by simp)
  apply writtenAs_cons (by decide) (inside_shortName kind)
  apply writtenAs_cons (by decide) (inside_fillColour theme kind)
  exact writtenAs_cons (by decide) (inside_nodeShape kind) .nil

/-- A line for each of the members of a list. -/
theorem reads_map {α : Type} {f : α → String} {g : α → Statement} {l : List α}
    (h : ∀ a, Reads [f a] [g a]) : Reads (l.map f) (l.map g) := by
  rw [List.map_eq_flatMap, List.map_eq_flatMap]
  exact .flatMap fun a _ => h a

theorem reads_clusterLines (theme : DotTheme) (name : String) (nodes : List GraphNode) :
    Reads (clusterLines theme name nodes)
      (blockStatements ("cluster_" ++ name) name "lightgrey"
        (nodes.map (nodeStatement theme))) := by
  have hid : Inside "cluster_" "cluster_" := .of_plain (by decide)
  have hcolour : Reads ["    color=lightgrey;"] [.setting "color" "lightgrey"] :=
    reads_of_run (by decide)
  have hfirst := (reads_opens (hid.append (.escape name))).append
    ((reads_setting (show IsName "label" by decide) (.escape name)).append hcolour)
  exact (hfirst.append (reads_map (reads_nodeLine theme (by decide)))).append reads_closes

theorem reads_nodeLines (options : DotOptions) (nodes : List GraphNode) :
    Reads (nodeLines options nodes) (nodeStatements options nodes) := by
  unfold nodeLines nodeStatements
  split
  · rw [entries_clustersOf, List.flatMap_map]
    exact .flatMap fun name _ => reads_clusterLines options.theme name _
  · exact reads_map (reads_nodeLine options.theme (by decide))

theorem reads_legendLines (theme : DotTheme) :
    Reads (legendLines theme)
      (blockStatements "cluster_legend" "Legend" "grey" (NodeKind.all.map (legendNode theme))) := by
  have hfirst : Reads ["  subgraph cluster_legend \x7b", "    label=\"Legend\";", "    color=grey;"]
      [.opens "subgraph" "cluster_legend", .setting "label" "Legend", .setting "color" "grey"] :=
    reads_of_run (by decide +kernel)
  exact (hfirst.append (reads_map (reads_legendLine theme))).append reads_closes

theorem reads_render (g : Graph) (options : DotOptions) :
    Reads (header options ++ nodeLines options g.nodes ++ g.edges.map (edgeLine g) ++
      (if options.legend then legendLines options.theme else []) ++ ["\x7d"])
        (document g options) := by
  have hclose : Reads ["\x7d"] [.closes] := reads_of_run (by decide)
  have hlegend : Reads (if options.legend then legendLines options.theme else [])
      (legendStatements options) := by
    unfold legendStatements
    split
    next h =>
      rw [legendNodes, if_pos h]
      exact reads_legendLines options.theme
    · exact .nil
  exact ((((reads_header options).append (reads_nodeLines options g.nodes)).append
    (reads_map (reads_edgeLine g))).append hlegend).append hclose

/-! ### Nodes, edges and blocks of a drawing -/

section Parts

variable {name label colour : String} {nodes : List Statement}

theorem isNode_of_mem_map_nodeStatement {theme : DotTheme} {nodes : List GraphNode} :
    ∀ s ∈ nodes.map (nodeStatement theme), s.isNode = true := by
  intro s hs
  obtain ⟨node, -, rfl⟩ := List.mem_map.1 hs
  rfl

theorem isNode_of_mem_legendNodes {options : DotOptions} :
    ∀ s ∈ legendNodes options, s.isNode = true := by
  intro s hs
  unfold legendNodes at hs
  split at hs
  · obtain ⟨kind, -, rfl⟩ := List.mem_map.1 hs
    rfl
  · cases hs

theorem isEdge_of_isNode {s : Statement} (h : s.isNode = true) : s.isEdge = false := by
  cases s <;> first | rfl | cases h

theorem filter_isNode_blockStatements (h : ∀ s ∈ nodes, s.isNode = true) :
    (blockStatements name label colour nodes).filter Statement.isNode = nodes := by
  simp [blockStatements, Statement.isNode, List.filter_eq_self.2 h]

theorem filter_isEdge_blockStatements (h : ∀ s ∈ nodes, s.isNode = true) :
    (blockStatements name label colour nodes).filter Statement.isEdge = [] := by
  have hnodes : nodes.filter Statement.isEdge = [] :=
    List.filter_eq_nil_iff.2 fun s hs => by simp [isEdge_of_isNode (h s hs)]
  simp [blockStatements, Statement.isEdge, hnodes]

/-- Nodes and edges open and close no blocks. -/
theorem blockDepth_of_forall {statements : List Statement}
    (h : ∀ s ∈ statements, s.isNode = true ∨ s.isEdge = true) (depth : Nat) :
    blockDepth depth statements = some depth := by
  induction statements with
  | nil => rfl
  | cons s statements ih =>
    have hs := h s (by simp)
    have hrest := ih fun t ht => h t (by simp [ht])
    cases s with
    | node => rwa [blockDepth] <;> simp
    | edge => rwa [blockDepth] <;> simp
    | _ => simp [Statement.isNode, Statement.isEdge] at hs

theorem blockDepth_blockStatements (h : ∀ s ∈ nodes, s.isNode = true) (depth : Nat) :
    blockDepth depth (blockStatements name label colour nodes) = some depth := by
  have hopen : blockDepth depth
      [.opens "subgraph" name, .setting "label" label, .setting "color" colour] =
      some (depth + 1) := rfl
  rw [blockStatements, blockDepth_append, blockDepth_append, hopen, Option.bind_some,
    blockDepth_of_forall (fun s hs => .inl (h s hs))]
  rfl

end Parts

/-- The nodes in their clusters are those of the graph. -/
theorem filter_isNode_nodeStatements_perm (options : DotOptions) (nodes : List GraphNode) :
    ((nodeStatements options nodes).filter Statement.isNode).Perm
    (nodes.map (nodeStatement options.theme)) := by
  unfold nodeStatements
  split
  · rw [List.filter_flatMap]
    simp only [filter_isNode_blockStatements isNode_of_mem_map_nodeStatement, ← List.map_flatMap]
    exact (perm_members nodes).map _
  · rw [List.filter_eq_self.2 isNode_of_mem_map_nodeStatement]

theorem filter_isEdge_nodeStatements (options : DotOptions) (nodes : List GraphNode) :
    (nodeStatements options nodes).filter Statement.isEdge = [] := by
  unfold nodeStatements
  split
  · rw [List.filter_flatMap, List.flatMap_eq_nil_iff]
    exact fun name _ => filter_isEdge_blockStatements isNode_of_mem_map_nodeStatement
  · exact List.filter_eq_nil_iff.2 fun s hs => by
      simp [isEdge_of_isNode (isNode_of_mem_map_nodeStatement s hs)]

theorem blockDepth_nodeStatements (options : DotOptions) (nodes : List GraphNode) (depth : Nat) :
    blockDepth depth (nodeStatements options nodes) = some depth := by
  unfold nodeStatements
  split
  · induction clusterNames nodes with
    | nil => rfl
    | cons name names ih =>
      rw [List.flatMap_cons, blockDepth_append,
        blockDepth_blockStatements isNode_of_mem_map_nodeStatement]
      exact ih
  · exact blockDepth_of_forall (fun s hs => .inl (isNode_of_mem_map_nodeStatement s hs)) depth

theorem filter_isNode_legendStatements (options : DotOptions) :
    (legendStatements options).filter Statement.isNode = legendNodes options := by
  unfold legendStatements
  split
  · exact filter_isNode_blockStatements isNode_of_mem_legendNodes
  next h => rw [legendNodes, if_neg h, List.filter_nil]

theorem filter_isEdge_legendStatements (options : DotOptions) :
    (legendStatements options).filter Statement.isEdge = [] := by
  unfold legendStatements
  split
  · exact filter_isEdge_blockStatements isNode_of_mem_legendNodes
  · rfl

theorem blockDepth_legendStatements (options : DotOptions) (depth : Nat) :
    blockDepth depth (legendStatements options) = some depth := by
  unfold legendStatements
  split
  · exact blockDepth_blockStatements isNode_of_mem_legendNodes depth
  · rfl

theorem isEdge_of_mem_map_edgeStatement {g : Graph} {edges : List GraphEdge} :
    ∀ s ∈ edges.map (edgeStatement g), s.isEdge = true := by
  intro s hs
  obtain ⟨edge, -, rfl⟩ := List.mem_map.1 hs
  rfl

theorem filter_isNode_document_perm (g : Graph) (options : DotOptions) :
    ((document g options).filter Statement.isNode).Perm
      (g.nodes.map (nodeStatement options.theme) ++ legendNodes options) := by
  have hheader : (headerStatements options).filter Statement.isNode = [] := rfl
  have hcloses : [Statement.closes].filter Statement.isNode = [] := rfl
  have hedges : (g.edges.map (edgeStatement g)).filter Statement.isNode = [] := by
    refine List.filter_eq_nil_iff.2 fun s hs hnode => ?_
    have hedge := isEdge_of_mem_map_edgeStatement s hs
    rw [isEdge_of_isNode hnode] at hedge
    cases hedge
  rw [document, List.filter_append, List.filter_append, List.filter_append, List.filter_append,
    hheader, hcloses, hedges, filter_isNode_legendStatements, List.nil_append, List.append_nil,
    List.append_nil]
  exact (filter_isNode_nodeStatements_perm options g.nodes).append_right _

theorem filter_isEdge_document (g : Graph) (options : DotOptions) :
    (document g options).filter Statement.isEdge = g.edges.map (edgeStatement g) := by
  have hheader : (headerStatements options).filter Statement.isEdge = [] := rfl
  have hcloses : [Statement.closes].filter Statement.isEdge = [] := rfl
  rw [document, List.filter_append, List.filter_append, List.filter_append, List.filter_append,
    hheader, hcloses, filter_isEdge_nodeStatements, filter_isEdge_legendStatements,
    List.filter_eq_self.2 isEdge_of_mem_map_edgeStatement]
  simp

/-- The blocks of a drawing are all closed. -/
theorem blockDepth_document (g : Graph) (options : DotOptions) :
    blockDepth 0 (document g options) = some 0 := by
  have hheader : blockDepth 0 (headerStatements options) = some 1 := rfl
  have hedges : blockDepth 1 (g.edges.map (edgeStatement g)) = some 1 :=
    blockDepth_of_forall (fun s hs => .inr (isEdge_of_mem_map_edgeStatement s hs)) 1
  rw [document, blockDepth_append, blockDepth_append, blockDepth_append, blockDepth_append, hheader,
    Option.bind_some, blockDepth_nodeStatements, Option.bind_some, hedges, Option.bind_some,
    blockDepth_legendStatements]
  rfl

/-- The drawing of a graph reads as its statements. -/
theorem read_render (g : Graph) (options : DotOptions) :
    read (render g options) = some (document g options) := by
  obtain ⟨tokens, hruns, hstatements⟩ := reads_render g options
  have hrun : Lexing.between.run (render g options).toList = some (tokens, .between) := hruns
  have hlex : lex (render g options) = some tokens := by
    rw [lex, hrun]
    simp [Lexing.finish]
  rw [read, hlex]
  exact hstatements

/-- A drawing decodes back to its graph. Every text in quotes is closed and the braces outside of
quotes balance. The statements are those of the document: its nodes are the nodes of the graph and,
if there is one, of the legend, each once and under the text that identifies it, and its edges are
those of the graph, in its order and with their labels. -/
theorem drawing_decodes (g : Graph) (options : DotOptions) :
    ∃ tokens, lex (render g options) = some tokens ∧
      braceDepth 0 tokens = some 0 ∧
      statementsFrom [] tokens = some (document g options) ∧
      ((document g options).filter Statement.isNode).Perm
        (g.nodes.map (nodeStatement options.theme) ++ legendNodes options) ∧
      (document g options).filter Statement.isEdge = g.edges.map (edgeStatement g) := by
  obtain ⟨tokens, hlex, hstatements⟩ := Option.bind_eq_some_iff.1 (read_render g options)
  refine ⟨tokens, hlex, ?_, hstatements, filter_isNode_document_perm g options,
    filter_isEdge_document g options⟩
  rw [braceDepth_of_statementsFrom hstatements, blockDepth_document]

end TemplateAtlas.Dot
