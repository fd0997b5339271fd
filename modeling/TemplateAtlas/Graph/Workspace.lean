import TemplateAtlas.Graph.Outgoing

/-!
# The graph of a workspace

One node for each file of the corpus and for each distinct target of its references, one undirected
edge for each file and target.
-/

namespace TemplateAtlas

/-- The graph with the target of a reference as a node. A file that a reference reaches through an
alias becomes external, and the first repository that is known is kept. -/
def Graph.addTarget (g : Graph) (o : Outgoing) : Graph :=
  let external := o.alias?.isSome
  match o.target with
  | .file _ repository? =>
    (g.addNode (.new o.key (if external then .external else .template))).updateNode o.key fun n =>
      { n with
        kind := if external && n.kind == .template then .external else n.kind
        repository? := n.repository? <|> repository? }
  | .missing _ repository? =>
    (g.addNode (.new o.key .missing)).updateNode o.key fun n =>
      { n with repository? := n.repository? <|> repository? }
  | .unknownAlias _ => g.addNode (.new o.key .unknownAlias)

/-- The graph with a reference of a file. -/
def Graph.addReference (source : Path) (g : Graph) (o : Outgoing) : Graph :=
  (g.addTarget o).addEdge ⟨.file source, o.key, .undirected, o.edgeLabel?⟩

/-- A node of an existing file with the counts of its parameters. -/
def countParameters (n : GraphNode) : Inquiry GraphNode :=
  match n.key with
  | .file path => do
    let (declared, required) ← parameterCounts path
    return { n with parameterCount := declared, requiredCount := required }
  | _ => return n

/-- The graph of the files of a corpus. -/
def workspaceGraph (files : List Path) : Inquiry Graph := do
  let own ← Inquiry.each (fun file => return GraphNode.new (.file file) (← classify file)) files
  let g : Graph := own.foldl Graph.addNode {}
  let found ← Inquiry.each (fun file => return (file, ← outgoing file)) files
  let g := found.foldl (fun g (file, refs) => refs.foldl (Graph.addReference file) g) g
  let nodes ← Inquiry.each countParameters g.nodes
  return { g with nodes := nodes }

end TemplateAtlas
