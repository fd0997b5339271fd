import TemplateAtlas.Proofs.Graph.Callers
import TemplateAtlas.Proofs.Graph.Flattening
import TemplateAtlas.Proofs.Graph.Workspace

/-!
# Repositories of nodes

In the graph of a workspace a node keeps the repository of the first reference that leads to it
through an alias (`Graph.repository?_of_mem_drawn`). The graph of a tree keeps none
(`Tree.nodes_toGraph`). In both, the nodes for aliases that are not declared are marked as such, and
no others are.
-/

namespace TemplateAtlas

open Inquiry TemplateAtlas.Template

/-- Is the kind that of an undeclared alias exactly for such a key? -/
def NodeKind.Fits (kind : NodeKind) (key : NodeKey) : Prop :=
  kind = .unknownAlias ↔ key.baseKind = .unknownAlias

theorem NodeKind.fits_congr {kind : NodeKind} {k l : NodeKey} (h : (k == l) = true) :
    kind.Fits k ↔ kind.Fits l := by
  rw [Fits, Fits, NodeKey.baseKind_congr h]

theorem NodeKind.fits_file {kind : NodeKind} (h : kind ≠ .unknownAlias) (p : Path) :
    kind.Fits (.file p) :=
  iff_of_false h (by simp [NodeKey.baseKind])

theorem NodeKind.fits_baseKind (key : NodeKey) : key.baseKind.Fits key :=
  Iff.rfl

theorem NodeKind.Fits.raised {kind : NodeKind} {key : NodeKey} (h : kind.Fits key)
    (external : Bool) : (kind.raised external).Fits key := by
  have hraised : kind.raised external = .unknownAlias ↔ kind = .unknownAlias := by
    cases kind <;> cases external <;> decide
  exact hraised.trans h

theorem kindOfText_ne_unknownAlias (text? : Option String) : kindOfText text? ≠ .unknownAlias := by
  unfold kindOfText
  split <;> simp

/-! ### The graph of a workspace -/

/-- The repository to which the first reference that leads to a key through an alias belongs. -/
def repositoryAt? (os : List Outgoing) (key : NodeKey) : Option String :=
  os.findSome? fun o => if o.key == key then o.target.repository? else none

namespace Graph

variable {g : Graph}

/-- The repository of the node with a key. -/
def repository? (g : Graph) (key : NodeKey) : Option String :=
  (g.node? key).bind (·.repository?)

/-- A reference gives its repository to the node at its end, if that has none. -/
theorem repository?_addTarget (g : Graph) (o : Outgoing) (key : NodeKey) :
    (g.addTarget o).repository? key =
      (g.repository? key).or (if o.key == key then o.target.repository? else none) := by
  have hkey : o.newNode.key = o.key := rfl
  have hnew : o.newNode.repository? = none := rfl
  have htouch : ∀ n, (o.touch n).repository? = n.repository?.or o.target.repository? := by
    intro n
    rw [Outgoing.touch]
    cases n.repository? <;> rfl
  rw [repository?, addTarget_eq, node?_updateNode o.key_touch, node?_addNode, repository?, hkey]
  cases hfind : g.node? key with
  | some n =>
    have hn := key_beq_of_node? hfind
    rw [Option.some_or, Option.map_some, Option.bind_some, Option.bind_some,
      BEq.congr_left hn, BEq.comm]
    split
    · exact htouch n
    · rw [Option.or_none]
  | none =>
    rw [Option.none_or, Option.bind_none, Option.none_or]
    split
    · rw [Option.map_some, Option.bind_some, hkey, BEq.rfl, if_pos rfl, htouch, hnew,
        Option.none_or]
    · rfl

/-- After references a node has the repository that it had, or else the first that any of them gives
to it. -/
theorem repository?_foldl_addTarget (g : Graph) (os : List Outgoing) (key : NodeKey) :
    (os.foldl addTarget g).repository? key = (g.repository? key).or (repositoryAt? os key) := by
  induction os generalizing g with
  | nil => rw [List.foldl_nil, repositoryAt?, List.findSome?_nil, Option.or_none]
  | cons o os ih =>
    have hfirst : repositoryAt? (o :: os) key =
        (if o.key == key then o.target.repository? else none).or (repositoryAt? os key) := by
      rw [repositoryAt?, List.findSome?_cons, repositoryAt?]
      cases (if o.key == key then o.target.repository? else none) <;> rfl
    rw [List.foldl_cons, ih, repository?_addTarget, Option.or_assoc, hfirst]

section Drawn

variable {files : List Path} {text : Path → Option String} {refs : Path → List Outgoing}
  {n : GraphNode}

theorem eq_new_of_mem_ownNodes (h : n ∈ ((ownNodes text files).foldl addNode {}).nodes) :
    ∃ f ∈ files, n = .new (.file f) (kindOfText (text f)) := by
  rw [foldl_addNode_nodes] at h
  rcases (@mem_foldl_appendNew_iff GraphNode (fun m n => m.key == n.key) (fun _ => BEq.rfl)
      (fun _ _ _ => BEq.trans)
    _ _ _).1 h with hnone | ⟨-, hfirst⟩
  · cases hnone
  · obtain ⟨f, hf, rfl⟩ := List.mem_map.1 (List.mem_of_find?_eq_some hfirst)
    exact ⟨f, hf, rfl⟩

/-- A node has the repository of the first reference that leads to it through an alias. -/
theorem repository?_of_mem_drawn (h : n ∈ (drawn text refs files).nodes) :
    n.repository? = repositoryAt? (files.flatMap refs) n.key := by
  have hown : ((ownNodes text files).foldl addNode {}).repository? n.key = none := by
    rw [repository?]
    cases hfind : ((ownNodes text files).foldl addNode {}).node? n.key with
    | none => rfl
    | some m =>
      obtain ⟨f, -, rfl⟩ := eq_new_of_mem_ownNodes (List.mem_of_find?_eq_some hfind)
      rfl
  have hnode : (drawn text refs files).repository? n.key = n.repository? := by
    rw [repository?, node?_of_mem apart_drawn h, Option.bind_some]
  have hdrawn : (drawn text refs files).repository? n.key =
      ((files.flatMap refs).foldl addTarget ((ownNodes text files).foldl addNode {})).repository?
        n.key := by
    rw [repository?, node?, drawn_nodes, ← node?, ← repository?]
  rw [← hnode, hdrawn, repository?_foldl_addTarget, hown, Option.none_or]

/-- The nodes for undeclared aliases are marked as such, and no others are. -/
theorem fits_of_mem_drawn (h : n ∈ (drawn text refs files).nodes) : n.kind.Fits n.key := by
  have hown : ∀ kind ∈ ((ownNodes text files).foldl addNode {}).kind? n.key, kind.Fits n.key := by
    intro kind hkind
    obtain ⟨m, hfind, rfl⟩ := Option.map_eq_some_iff.1 hkind
    obtain ⟨f, -, rfl⟩ := eq_new_of_mem_ownNodes (List.mem_of_find?_eq_some hfind)
    exact (NodeKind.fits_congr (key_beq_of_node? hfind)).1
      (NodeKind.fits_file (kindOfText_ne_unknownAlias _) f)
  have hkind :
      ((files.flatMap refs).foldl addTarget ((ownNodes text files).foldl addNode {})).kind? n.key =
      some n.kind := by
    rw [kind?, node?, ← drawn_nodes, ← node?, node?_of_mem apart_drawn h, Option.map_some]
  rw [kind?_foldl_addTarget] at hkind
  split at hkind
  · rw [← Option.some.inj hkind]
    refine NodeKind.Fits.raised ?_ _
    cases hfirst : ((ownNodes text files).foldl addNode {}).kind? n.key with
    | none => exact NodeKind.fits_baseKind n.key
    | some kind => exact hown kind hfirst
  · exact hown n.kind hkind

end Drawn

end Graph

/-- The nodes of the graph of a workspace are those that are drawn of its files, up to the
counts. -/
theorem exists_mem_drawn_of_mem {files : List Path} {view : View} {n : GraphNode}
    (h : n ∈ ((workspaceGraph files).answer view).nodes) :
    ∃ m ∈ (Graph.drawn view.text (fun f => (outgoing f).answer view) files).nodes,
      n.key = m.key ∧ n.kind = m.kind ∧ n.repository? = m.repository? := by
  have hsame : ∀ m : GraphNode, (m.counted view.text).repository? = m.repository? := by
    intro m
    unfold GraphNode.counted
    split <;> rfl
  rw [answer_workspaceGraph] at h
  obtain ⟨m, hm, rfl⟩ := List.mem_map.1 h
  exact ⟨m, hm, m.key_counted _, m.kind_counted _, hsame m⟩

/-! ### The graph of a tree -/

namespace Tree

section Nodes

variable {good : NodeKey → NodeKind → Prop}

theorem addInfo_nodes {g : Graph} {info : TreeInfo}
    (hg : ∀ n ∈ g.nodes, n.repository? = none ∧ good n.key n.kind)
    (hinfo : good info.key info.kind) :
    ∀ n ∈ (addInfo g info).nodes, n.repository? = none ∧ good n.key n.kind := by
  have hadd : ∀ n ∈ (g.addNode (.new info.key info.kind)).nodes, n.repository? = none ∧
      good n.key n.kind := by
    intro n hn
    rw [Graph.addNode_nodes, appendNew] at hn
    split at hn
    · exact hg n hn
    · rcases List.mem_append.1 hn with hold | hnew
      · exact hg n hold
      · rw [List.mem_singleton.1 hnew]
        exact ⟨rfl, hinfo⟩
  unfold addInfo
  split
  · exact hadd
  · intro n hn
    obtain ⟨m, hm, rfl⟩ := List.mem_map.1 hn
    split <;> exact hadd m hm

mutual

/-- The nodes that a tree adds have no repository, and keep the kind of the place in the tree where
they come up. -/
theorem nodes_addTo (direction : EdgeDirection) : ∀ (t : Tree) (g : Graph),
    (∀ n ∈ g.nodes, n.repository? = none ∧ good n.key n.kind) →
    (∀ info ∈ t.preorder, good info.key info.kind) →
    ∀ n ∈ (addTo direction t g).nodes, n.repository? = none ∧ good n.key n.kind
  | node info children, g, hg, ht => by
    rw [preorder, List.forall_mem_cons] at ht
    rw [addTo]
    exact nodes_addAllTo direction info.key children _ (addInfo_nodes hg ht.1) ht.2

theorem nodes_addAllTo (direction : EdgeDirection) (parent : NodeKey) :
    ∀ (ts : List Tree) (g : Graph),
    (∀ n ∈ g.nodes, n.repository? = none ∧ good n.key n.kind) →
    (∀ info ∈ preorderAll ts, good info.key info.kind) →
    ∀ n ∈ (addAllTo direction parent ts g).nodes, n.repository? = none ∧ good n.key n.kind
  | [], _, hg, _ => hg
  | t :: ts, g, hg, hts => by
    rw [preorderAll, List.forall_mem_append] at hts
    rw [addAllTo]
    refine nodes_addAllTo direction parent ts _ (fun n hn => ?_) hts.2
    rw [Graph.addEdge_nodes] at hn
    exact nodes_addTo direction t g hg hts.1 n hn

end

/-- The nodes of the graph of a tree have no repository. -/
theorem nodes_toGraph {t : Tree} (direction : EdgeDirection)
    (h : ∀ info ∈ t.preorder, good info.key info.kind) :
    ∀ n ∈ (t.toGraph direction).nodes, n.repository? = none ∧ good n.key n.kind :=
  nodes_addTo direction t {} (by simp) h

end Nodes

/-- Are all places of a tree good, by their keys and kinds? -/
def Places (good : NodeKey → NodeKind → Prop) (t : Tree) : Prop :=
  ∀ info ∈ t.preorder, good info.key info.kind

theorem mem_preorderAll_iff {ts : List Tree} {info : TreeInfo} :
    info ∈ preorderAll ts ↔ ∃ t ∈ ts, info ∈ t.preorder := by
  induction ts with
  | nil => simp [preorderAll]
  | cons t ts ih => simp [preorderAll, ih]

section Places

variable {good : NodeKey → NodeKind → Prop} {info : TreeInfo}

theorem places_leaf (h : good info.key info.kind) : (leaf info).Places good := by
  intro other hother
  rw [leaf, preorder, preorderAll, List.mem_singleton] at hother
  rwa [hother]

theorem places_node {children : List Tree} (h : good info.key info.kind)
    (hchildren : ∀ t ∈ children, t.Places good) : (node info children).Places good := by
  rw [Places, preorder, List.forall_mem_cons]
  refine ⟨h, fun other hother => ?_⟩
  obtain ⟨t, ht, hmem⟩ := mem_preorderAll_iff.1 hother
  exact hchildren t ht other hmem

end Places

/-- Are the places for undeclared aliases marked as such, and no others? -/
def KindsFit (t : Tree) : Prop :=
  ∀ info ∈ t.preorder, info.kind.Fits info.key

end Tree

/-! ### The places on a walk -/

section Walks

variable {good : NodeKey → NodeKind → Prop}

/-- Is the place of every file good that is not marked as an undeclared alias? -/
def GoodFiles (good : NodeKey → NodeKind → Prop) : Prop :=
  ∀ p kind, kind ≠ .unknownAlias → good (.file p) kind

/-- Is the end of every reference good, as far as its key tells the kind? -/
def GoodEnds (good : NodeKey → NodeKind → Prop) : Prop :=
  ∀ file, (outgoing file).Yields fun found => ∀ o ∈ found, good o.key o.key.baseKind

theorem yields_fileInfo (hfiles : GoodFiles good) (file : Path) (line? : Option Nat)
    (alias? : Option String) :
    (fileInfo file line? alias?).Yields fun info => good info.key info.kind := by
  refine (yields_true _).bind fun text? _ => ?_
  have hkind : (if alias?.isSome then NodeKind.external else kindOfText text?) ≠ .unknownAlias := by
    split
    · simp
    · exact kindOfText_ne_unknownAlias text?
  exact hfiles file _ hkind

theorem yields_cycleInfo (hfiles : GoodFiles good) (file : Path) (line : Nat)
    (alias? : Option String) :
    (cycleInfo file line alias?).Yields fun info => good info.key info.kind := by
  have hexternal : NodeKind.external ≠ .unknownAlias := by decide
  have hclassify : (classify file).Yields (· ≠ .unknownAlias) :=
    (yields_true _).bind fun text? _ => kindOfText_ne_unknownAlias text?
  unfold cycleInfo
  split
  · exact hfiles file _ hexternal
  · exact hclassify.bind fun kind h => hfiles file kind h

/-- The places on a walk down are those of files and of the ends of references. -/
theorem yields_walkDown (hfiles : GoodFiles good) (hends : GoodEnds good) (above : List Path)
    (depth : Nat) (file : Path) (line? : Option Nat) (alias? : Option String) :
    (walkDown above depth file line? alias?).Yields (Tree.Places good) := by
  induction depth generalizing above file line? alias? with
  | zero => exact (yields_fileInfo hfiles file line? alias?).bind fun _ h => Tree.places_leaf h
  | succ depth ih =>
    refine (yields_fileInfo hfiles file line? alias?).bind fun info hinfo => ?_
    refine (hends file).bind fun found hfound => ?_
    refine (Yields.each fun o ho => ?_).bind fun children hchildren =>
      Tree.places_node hinfo hchildren
    have hend := hfound o ho
    cases htarget : o.target with
    | file path repository? =>
      simp only
      split
      · exact (yields_cycleInfo hfiles path _ _).bind fun _ h => Tree.places_leaf h
      · exact ih ..
    | missing path repository? =>
      have hkey : o.key = .missing path := by rw [Outgoing.key, htarget]
      refine Tree.places_leaf ?_
      rw [hkey] at hend ⊢
      exact hend
    | unknownAlias name =>
      have hkey : o.key = .unknownAlias name o.reference.raw := by rw [Outgoing.key, htarget]
      refine Tree.places_leaf ?_
      rw [hkey] at hend ⊢
      exact hend

theorem yields_eachWith {α β σ : Type} {good : β → Prop} {f : α → σ → Inquiry (β × σ)}
    (h : ∀ a s, (f a s).Yields fun r => good r.1) (as : List α) (s : σ) :
    (eachWith f as s).Yields fun r => ∀ b ∈ r.1, good b := by
  induction as generalizing s with
  | nil => exact fun _ hb => by cases hb
  | cons a as ih =>
    refine (h a s).bind fun r hr => (ih r.2).bind fun rest hrest => ?_
    exact List.forall_mem_cons.2 ⟨hr, hrest⟩

/-- The places on a walk up are those of files. -/
theorem yields_walkUp (hfiles : GoodFiles good)
    (callers : Path → CallSiteMemo → Inquiry (List CallSite × CallSiteMemo)) (above : List Path)
    (depth : Nat) (file : Path) (line? : Option Nat) (alias? : Option String)
    (memo : CallSiteMemo) :
    (walkUp callers above depth file line? alias? memo).Yields fun r => r.1.Places good := by
  induction depth generalizing above file line? alias? memo with
  | zero => exact (yields_fileInfo hfiles file line? none).bind fun _ h => Tree.places_leaf h
  | succ depth ih =>
    refine (yields_fileInfo hfiles file line? none).bind fun info hinfo => ?_
    refine (yields_true (callers file memo)).bind fun found _ => ?_
    have hsite : ∀ site memo, (walkSite callers (file :: above) depth site memo).Yields fun r =>
        r.1.Places good := by
      intro site memo
      unfold walkSite
      split
      · exact (yields_cycleInfo hfiles site.caller site.line none).bind fun _ h =>
          Tree.places_leaf h
      · exact ih ..
    exact (yields_eachWith hsite found.1 found.2).bind fun children h => Tree.places_node hinfo h

theorem goodFiles_fits : GoodFiles fun key kind => kind.Fits key :=
  fun p _ h => NodeKind.fits_file h p

namespace Workspace

variable (ws : Workspace) (tree : FileTree) (file : Path) (depth : Nat)

theorem places_templateTree (hfiles : GoodFiles good) (hends : GoodEnds good) :
    (ws.templateTree tree file depth).1.Places good :=
  (yields_walkDown hfiles hends [] (clampDepth depth) file none none).run_fst tree ws.memory

theorem places_callerTree (hfiles : GoodFiles good) :
    (ws.callerTree tree file depth).1.Places good := by
  unfold callerTree
  split
  · have hyields : (callerTreeBy ws.index.snapshot.callersWithSites file depth).Yields
        (Tree.Places good) :=
      (yields_walkUp hfiles _ [] (clampDepth depth) file none none .empty).bind fun _ h =>
        yields_pure_iff.2 h
    exact hyields.run_fst tree ws.memory
  · have hyields : (callerTreeByScan (ws.corpus tree) file depth).Yields (Tree.Places good) :=
      (yields_walkUp hfiles _ [] (clampDepth depth) file none none .empty).bind fun _ h =>
        yields_pure_iff.2 h
    exact hyields.run_fst tree ws.memory

/-- In the tree of what a file refers to, only the places for undeclared aliases are marked as
such. -/
theorem kindsFit_templateTree : (ws.templateTree tree file depth).1.KindsFit := by
  have hends : GoodEnds fun key kind => kind.Fits key := fun f =>
    (yields_true (outgoing f)).mono fun _ _ o _ => NodeKind.fits_baseKind o.key
  exact places_templateTree ws tree file depth goodFiles_fits hends

/-- In the tree of what refers to a file, no place is marked as one for an undeclared alias. -/
theorem kindsFit_callerTree : (ws.callerTree tree file depth).1.KindsFit :=
  places_callerTree ws tree file depth goodFiles_fits

end Workspace

end Walks

end TemplateAtlas
