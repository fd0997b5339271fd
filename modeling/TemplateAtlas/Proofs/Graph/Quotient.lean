import Mathlib.Data.List.Induction
import TemplateAtlas.Proofs.Graph.Flattening

/-!
# The graph of a tree is its quotient

A tree may hold many places with one key. Its places are told apart by their positions, the numbers
of the children on the way down, and going through the tree with a stack of what still waits meets
them in the order of their positions (`Tree.visits_preorder`, `Tree.pairwise_places`). The graph of
the tree keeps one node for each key, at the first place that has it, with the counts of the last
place that has it and marks no cycle (`Tree.nodes_toGraph_eq`), and one edge for each pair of keys
that some parent and child have (`Tree.exists_edge_toGraph_iff`).
-/

namespace TemplateAtlas

/-! ### Keeping the first of each -/

/-- Collecting without repetition keeps the first of each. -/
theorem foldl_appendNew_eq_eraseDupsBy {α : Type} (same : α → α → Bool) (as : List α) :
    as.foldl (appendNew same) [] = as.eraseDupsBy fun a b => same b a := by
  have hloop : ∀ kept : List α, as.foldl (appendNew same) kept.reverse =
      List.eraseDupsBy.loop (fun a b => same b a) as kept := by
    induction as with
    | nil => exact fun kept => rfl
    | cons a as ih =>
      intro kept
      rw [List.foldl_cons, appendNew, List.any_reverse, List.eraseDupsBy.loop]
      cases kept.any (same · a) with
      | true => exact ih kept
      | false => exact List.reverse_cons ▸ ih (a :: kept)
  exact hloop []

/-- What is collected holds the same as what it is collected from. -/
theorem any_foldl_appendNew {α : Type} (same : α → α → Bool)
    (htrans : ∀ a b c, same a b = true → same b c = true → same a c = true) (as : List α) (c : α) :
    (as.foldl (appendNew same) []).any (same · c) = as.any (same · c) := by
  induction as using List.reverseRecOn with
  | nil => rfl
  | append_singleton as a ih =>
    rw [List.foldl_append, List.foldl_cons, List.foldl_nil, appendNew]
    split
    next hknown =>
      obtain ⟨b, hb, hba⟩ := List.any_eq_true.1 hknown
      have hsame : same a c = true → as.any (same · c) = true := fun hac =>
        ih ▸ List.any_eq_true.2 ⟨b, hb, htrans b a c hba hac⟩
      rw [ih, List.any_append, List.any_cons, List.any_nil, Bool.or_false]
      cases hac : same a c with
      | true => rw [hsame hac, Bool.or_true]
      | false => rw [Bool.or_false]
    next => rw [List.any_append, List.any_append, ih]

namespace Tree

/-! ### Positions -/

/-- The tree at a position, which numbers the children on the way down. -/
def subtree? : Tree → List Nat → Option Tree
  | t, [] => some t
  | t, i :: position => t.children[i]?.bind fun c => c.subtree? position

mutual

/-- The places of a tree with their positions. -/
def places : Tree → List (List Nat × TreeInfo)
  | node info children => ([], info) :: placesFrom 0 children

/-- The places of several trees under a common parent, of which the first is the child number
`i`. -/
def placesFrom (i : Nat) : List Tree → List (List Nat × TreeInfo)
  | [] => []
  | t :: ts => (places t).map (fun place => (i :: place.1, place.2)) ++ placesFrom (i + 1) ts

end

/-- Going through trees that wait on a stack: the top node of the first tree comes out, and its
children take the place of the tree. -/
inductive Visits : List Tree → List TreeInfo → Prop where
  /-- Nothing waits any more. -/
  | done : Visits [] []
  /-- The next node comes out. -/
  | next {info : TreeInfo} {children rest : List Tree} {infos : List TreeInfo} :
    Visits (children ++ rest) infos → Visits (node info children :: rest) (info :: infos)

mutual

theorem visits_append : ∀ (t : Tree) {rest : List Tree} {infos : List TreeInfo}, Visits rest infos →
    Visits (t :: rest) (t.preorder ++ infos)
  | node info children, _, _, h => by
    rw [preorder, List.cons_append]
    exact .next (visitsAll_append children h)

/-- What waits on the stack comes out after all nodes of the trees on top of it. -/
theorem visitsAll_append :
    ∀ (ts : List Tree) {rest : List Tree} {infos : List TreeInfo}, Visits rest infos →
    Visits (ts ++ rest) (preorderAll ts ++ infos)
  | [], _, _, h => h
  | t :: ts, _, _, h => by
    rw [preorderAll, List.append_assoc]
    exact visits_append t (visitsAll_append ts h)

end

theorem visits_preorder (t : Tree) : Visits [t] t.preorder := by
  simpa using visits_append t .done

mutual

theorem map_snd_places : ∀ t : Tree, t.places.map Prod.snd = t.preorder
  | node info children => by rw [places, preorder, List.map_cons, map_snd_placesFrom 0 children]

theorem map_snd_placesFrom (i : Nat) :
    ∀ ts : List Tree, (placesFrom i ts).map Prod.snd = preorderAll ts
  | [] => rfl
  | t :: ts => by
    rw [placesFrom, preorderAll, List.map_append, List.map_map, ← map_snd_places t,
      map_snd_placesFrom (i + 1) ts]
    rfl

end

mutual

/-- The places are the nodes at the positions of the tree. -/
theorem mem_places_iff : ∀ {t : Tree} {position : List Nat} {info : TreeInfo},
    (position, info) ∈ t.places ↔ (t.subtree? position).map Tree.info = some info
  | node top children, [], info => by
    have hfrom : ([], info) ∉ placesFrom 0 children := fun h => by
      obtain ⟨_, _, hcons, -⟩ := mem_placesFrom_iff.1 h
      cases hcons
    simp [places, subtree?, Tree.info, hfrom, eq_comm]
  | node top children, i :: position, info => by
    rw [places, List.mem_cons, mem_placesFrom_iff, subtree?, Option.map_bind]
    constructor
    · rintro (h | ⟨j, q, h, hinfo⟩)
      · cases h
      · obtain ⟨rfl, rfl⟩ := List.cons.inj h
        rwa [Nat.zero_add]
    · intro h
      exact .inr ⟨i, position, by rw [Nat.zero_add], h⟩

theorem mem_placesFrom_iff : ∀ {ts : List Tree} {i : Nat} {position : List Nat} {info : TreeInfo},
    (position, info) ∈ placesFrom i ts ↔
      ∃ j q, position = (i + j) :: q ∧
        ts[j]?.bind (fun c => (c.subtree? q).map Tree.info) = some info
  | [], i, position, info => by simp [placesFrom]
  | t :: ts, i, position, info => by
    rw [placesFrom, List.mem_append, mem_placesFrom_iff]
    constructor
    · rintro (h | ⟨j, q, rfl, hinfo⟩)
      · obtain ⟨⟨q, info'⟩, hmem, heq⟩ := List.mem_map.1 h
        cases heq
        exact ⟨0, q, rfl, mem_places_iff.1 hmem⟩
      · exact ⟨j + 1, q, by rw [Nat.add_right_comm, Nat.add_assoc], hinfo⟩
    · rintro ⟨j, q, rfl, hinfo⟩
      cases j with
      | zero => exact .inl (List.mem_map.2 ⟨(q, info), mem_places_iff.2 hinfo, rfl⟩)
      | succ j => exact .inr ⟨j, q, by rw [Nat.add_right_comm, Nat.add_assoc], hinfo⟩

end

mutual

/-- The places come in the order of their positions, a node before all that stand under it. -/
theorem pairwise_places : ∀ t : Tree, (t.places.map Prod.fst).Pairwise (· < ·)
  | node info children => by
    rw [places, List.map_cons, List.pairwise_cons]
    refine ⟨fun position hposition => ?_, pairwise_placesFrom 0 children⟩
    obtain ⟨⟨_, info'⟩, hmem, rfl⟩ := List.mem_map.1 hposition
    obtain ⟨j, q, rfl, -⟩ := mem_placesFrom_iff.1 hmem
    exact List.nil_lt_cons _ _

theorem pairwise_placesFrom (i : Nat) :
    ∀ ts : List Tree, ((placesFrom i ts).map Prod.fst).Pairwise (· < ·)
  | [] => List.Pairwise.nil
  | t :: ts => by
    rw [placesFrom, List.map_append, List.map_map, List.pairwise_append]
    refine ⟨?_, pairwise_placesFrom (i + 1) ts, ?_⟩
    · have hinside := pairwise_places t
      rw [List.pairwise_map] at hinside ⊢
      exact hinside.imp fun h => List.cons_lt_cons_self.2 h
    · rintro _ hleft _ hright
      obtain ⟨place, -, rfl⟩ := List.mem_map.1 hleft
      obtain ⟨⟨_, info⟩, hmem, rfl⟩ := List.mem_map.1 hright
      obtain ⟨j, q, rfl, -⟩ := mem_placesFrom_iff.1 hmem
      exact List.cons_lt_cons_iff.2 (.inl (by omega))

end

/-- Does the link connect a node of the tree, somewhere, to one of its children? -/
def HasLink (t : Tree) (link : Link) : Prop :=
  ∃ position u, t.subtree? position = some u ∧ ∃ c ∈ u.children, link = ⟨u.info.key, c.info⟩

theorem hasLink_node_iff {info : TreeInfo} {children : List Tree} {link : Link} :
    (node info children).HasLink link ↔
      (∃ c ∈ children, link = ⟨info.key, c.info⟩) ∨ ∃ c ∈ children, c.HasLink link := by
  constructor
  · rintro ⟨position, u, hu, hlink⟩
    cases position with
    | nil =>
      cases hu
      exact .inl hlink
    | cons i position =>
      obtain ⟨c, hi, hu⟩ := Option.bind_eq_some_iff.1 hu
      exact .inr ⟨c, List.mem_of_getElem? hi, position, u, hu, hlink⟩
  · rintro (hlink | ⟨c, hc, position, u, hu, hlink⟩)
    · exact ⟨[], _, rfl, hlink⟩
    · obtain ⟨i, hi⟩ := List.mem_iff_getElem?.1 hc
      exact ⟨i :: position, u, by rw [subtree?, Tree.children, hi, Option.bind_some, hu], hlink⟩

mutual

theorem mem_links_iff : ∀ {t : Tree} {link : Link}, link ∈ t.links ↔ t.HasLink link
  | node info children, link => by rw [links, mem_linksUnder_iff, hasLink_node_iff]

theorem mem_linksUnder_iff : ∀ {ts : List Tree} {parent : NodeKey} {link : Link},
    link ∈ linksUnder parent ts ↔ (∃ c ∈ ts, link = ⟨parent, c.info⟩) ∨ ∃ c ∈ ts, c.HasLink link
  | [], parent, link => by simp [linksUnder]
  | t :: ts, parent, link => by
    rw [linksUnder, List.mem_append, List.mem_cons, mem_links_iff, mem_linksUnder_iff,
      List.exists_mem_cons_iff, List.exists_mem_cons_iff, or_left_comm, or_assoc]
    exact or_congr_right or_left_comm

end

/-! ### Nodes -/

/-- The counts of parameters that the last place with a key states, of those that mark no cycle. -/
def statedCounts (infos : List TreeInfo) (key : NodeKey) : Nat × Nat :=
  match infos.findRev? fun info => !info.cycle && info.key == key with
  | some info => (info.parameterCount, info.requiredCount)
  | none => (0, 0)

/-- The node for the first of several places with its key. -/
def nodeAmong (infos : List TreeInfo) (info : TreeInfo) : GraphNode :=
  { GraphNode.new info.key info.kind with
    parameterCount := (statedCounts infos info.key).1,
    requiredCount := (statedCounts infos info.key).2 }

theorem statedCounts_append_singleton (infos : List TreeInfo) (last : TreeInfo) (key : NodeKey) :
    statedCounts (infos ++ [last]) key =
      if !last.cycle && last.key == key then (last.parameterCount, last.requiredCount)
        else statedCounts infos key := by
  rw [statedCounts, List.findRev?_eq_find?_reverse, List.reverse_append, List.reverse_singleton,
    List.singleton_append, List.find?_cons]
  cases !last.cycle && last.key == key with
  | true => rfl
  | false => rw [statedCounts, List.findRev?_eq_find?_reverse]; rfl

/-- The last place gives its counts to the node of its key, unless it marks a cycle. -/
theorem nodeAmong_append_singleton (infos : List TreeInfo) (last info : TreeInfo) :
    nodeAmong (infos ++ [last]) info =
      if !last.cycle && info.key == last.key then
        { nodeAmong infos info with
          parameterCount := last.parameterCount
          requiredCount := last.requiredCount }
      else nodeAmong infos info := by
  rw [nodeAmong, statedCounts_append_singleton, BEq.comm]
  split <;> rfl

/-- A key that comes up for the first time has no counts yet. -/
theorem statedCounts_of_new {infos : List TreeInfo} {key : NodeKey}
    (h : infos.any (fun info => info.key == key) = false) : statedCounts infos key = (0, 0) := by
  have hnone : infos.findRev? (fun info => !info.cycle && info.key == key) = none := by
    rw [List.findRev?_eq_find?_reverse, List.find?_eq_none]
    intro info hinfo
    simp [List.any_eq_false.1 h info (List.mem_reverse.1 hinfo)]
  rw [statedCounts, hnone]

theorem nodes_addInfo (g : Graph) (info : TreeInfo) :
    (addInfo g info).nodes =
      (appendNew (fun m n => m.key == n.key) g.nodes (.new info.key info.kind)).map fun n =>
        if !info.cycle && n.key == info.key then
          { n with parameterCount := info.parameterCount, requiredCount := info.requiredCount }
        else n := by
  unfold addInfo
  cases info.cycle with
  | true => simp [Graph.addNode_nodes]
  | false => simp [Graph.updateNode, Graph.addNode_nodes]

theorem nodes_foldl_addInfo_congr (infos : List TreeInfo) {g g' : Graph} (h : g.nodes = g'.nodes) :
    (infos.foldl addInfo g).nodes = (infos.foldl addInfo g').nodes := by
  induction infos generalizing g g' with
  | nil => exact h
  | cons info infos ih => exact ih (by rw [nodes_addInfo, nodes_addInfo, h])

mutual

/-- A tree adds the nodes of its places, one after the other. -/
theorem nodes_addTo_eq (direction : EdgeDirection) : ∀ (t : Tree) (g : Graph),
    (addTo direction t g).nodes = (t.preorder.foldl addInfo g).nodes
  | node info children, g => by
    rw [addTo, preorder, List.foldl_cons, nodes_addAllTo_eq direction info.key children]

theorem nodes_addAllTo_eq (direction : EdgeDirection) (parent : NodeKey) :
    ∀ (ts : List Tree) (g : Graph),
    (addAllTo direction parent ts g).nodes = ((preorderAll ts).foldl addInfo g).nodes
  | [], g => rfl
  | t :: ts, g => by
    rw [addAllTo, preorderAll, List.foldl_append, nodes_addAllTo_eq direction parent ts]
    refine nodes_foldl_addInfo_congr _ ?_
    rw [Graph.addEdge_nodes, nodes_addTo_eq direction t]

end

/-- Places one after the other make a node for each first place with a key, with the counts that the
key has so far. -/
theorem nodes_foldl_addInfo (infos : List TreeInfo) :
    (infos.foldl addInfo {}).nodes =
      (infos.foldl (appendNew fun a b => a.key == b.key) []).map (nodeAmong infos) := by
  induction infos using List.reverseRecOn with
  | nil => rfl
  | append_singleton infos last ih =>
    have hadd : ∀ firsts : List TreeInfo,
        firsts.any (·.key == last.key) = infos.any (·.key == last.key) →
        appendNew (fun m n => m.key == n.key) (firsts.map (nodeAmong infos))
          (.new last.key last.kind) =
          (appendNew (fun a b => a.key == b.key) firsts last).map (nodeAmong infos) := by
      intro firsts hany
      unfold appendNew
      rw [List.any_map,
        show (fun n : GraphNode => n.key == (GraphNode.new last.key last.kind).key) ∘
        nodeAmong infos =
        fun info => info.key == last.key from rfl]
      cases hknown : firsts.any (·.key == last.key) with
      | true => rfl
      | false =>
        have hlast : nodeAmong infos last = .new last.key last.kind := by
          rw [nodeAmong, statedCounts_of_new (hany ▸ hknown)]
          rfl
        simp [hlast]
    rw [List.foldl_append, List.foldl_append, List.foldl_cons, List.foldl_nil, List.foldl_cons,
      List.foldl_nil, nodes_addInfo, ih, hadd, List.map_map]
    · exact List.map_congr_left fun info _ => (nodeAmong_append_singleton infos last info).symm
    · exact any_foldl_appendNew (fun a b => a.key == b.key) (fun _ _ _ => BEq.trans) infos last

/-- The nodes of the graph of a tree are those of the first places for each key. -/
theorem nodes_toGraph_eq (t : Tree) (direction : EdgeDirection) :
    (t.toGraph direction).nodes =
      (t.preorder.eraseDupsBy fun a b => a.key == b.key).map (nodeAmong t.preorder) := by
  rw [toGraph, nodes_addTo_eq, nodes_foldl_addInfo, foldl_appendNew_eq_eraseDupsBy]
  simp only [BEq.comm]

/-! ### Edges -/

theorem direction_of_mem_edges_toGraph {t : Tree} {direction : EdgeDirection} {e : GraphEdge}
    (h : e ∈ (t.toGraph direction).edges) : e.direction = direction := by
  obtain ⟨link, -, rfl⟩ := mem_edges_toGraph_iff.1 h
  rfl

/-- No two edges of the graph of a tree join the same keys. -/
theorem pairwise_edges_toGraph (t : Tree) (direction : EdgeDirection) :
    (t.toGraph direction).edges.Pairwise fun e f =>
      (e.source == f.source && e.target == f.target) = false := by
  have hapart : (t.toGraph direction).edges.Pairwise fun e f => e.joinsAs f = false := by
    rw [toGraph, edges_addTo]
    exact pairwise_foldl_appendNew List.Pairwise.nil _
  refine hapart.imp_of_mem fun he hf h => ?_
  rwa [GraphEdge.joinsAs, direction_of_mem_edges_toGraph he, direction_of_mem_edges_toGraph hf,
    BEq.rfl, Bool.and_true] at h

/-- An edge joins two keys, if a node somewhere in the tree has the one and one of its children the
other. -/
theorem exists_edge_toGraph_iff {t : Tree} {direction : EdgeDirection} {source target : NodeKey} :
    (∃ e ∈ (t.toGraph direction).edges, (e.source == source && e.target == target) = true) ↔
      ∃ link, t.HasLink link ∧ link.joins source target = true := by
  constructor
  · rintro ⟨e, he, hjoins⟩
    obtain ⟨link, hfind, rfl⟩ := mem_edges_toGraph_iff.1 he
    exact ⟨link, mem_links_iff.1 (List.mem_of_find?_eq_some hfind), hjoins⟩
  · rintro ⟨link, hlink, hjoins⟩
    obtain ⟨first, hfind⟩ : ∃ first, t.links.find? (·.joins source target) = some first :=
      Option.isSome_iff_exists.1 (List.find?_isSome.2 ⟨link, mem_links_iff.2 hlink, hjoins⟩)
    have hfirst : first.joins source target = true :=
      List.find?_some (p := fun link : Link => link.joins source target) hfind
    have hsame : (fun other : Link => other.joins source target) =
        fun other => other.joins (first.edge direction).source (first.edge direction).target := by
      funext other
      rw [Link.joins, Bool.and_eq_true] at hfirst
      rw [Link.joins, Link.joins, ← BEq.congr_right hfirst.1, ← BEq.congr_right hfirst.2]
      rfl
    exact ⟨first.edge direction, mem_edges_toGraph_iff.2 ⟨first, hsame ▸ hfind, rfl⟩, hfirst⟩

theorem isSome_node?_toGraph {t : Tree} (direction : EdgeDirection) {info : TreeInfo}
    (h : info ∈ t.preorder) : ((t.toGraph direction).node? info.key).isSome = true := by
  have hknown : t.preorder.any (·.key == info.key) = true := List.any_eq_true.2 ⟨info, h, BEq.rfl⟩
  rw [Graph.node?, List.isSome_find?, toGraph, nodes_addTo_eq, nodes_foldl_addInfo,
    List.any_map, ← hknown]
  exact any_foldl_appendNew (fun a b => a.key == b.key) (fun _ _ _ => BEq.trans) t.preorder info

/-- The graph of a tree has nodes at both ends of an edge. -/
theorem ends_of_mem_edges_toGraph {t : Tree} {direction : EdgeDirection} {e : GraphEdge}
    (h : e ∈ (t.toGraph direction).edges) :
    ((t.toGraph direction).node? e.source).isSome = true ∧
      ((t.toGraph direction).node? e.target).isSome = true := by
  obtain ⟨link, hfind, rfl⟩ := mem_edges_toGraph_iff.1 h
  exact @links_good (fun key => ((t.toGraph direction).node? key).isSome = true) t
    (fun info hinfo => isSome_node?_toGraph direction hinfo) link (List.mem_of_find?_eq_some hfind)

/-! ### The quotient -/

/-- Is the graph the quotient of a tree, whose nodes are listed in some order, by their keys? -/
structure IsQuotient (t : Tree) (infos : List TreeInfo) (direction : EdgeDirection) (g : Graph) :
    Prop where
  /-- The nodes are those of the first places for each key, in the order of these, with the kind
  that stands there and the counts of the last place for the key that marks no cycle. -/
  nodes : g.nodes = (infos.eraseDupsBy fun a b => a.key == b.key).map (nodeAmong infos)
  /-- No two edges join the same keys. -/
  apart : g.edges.Pairwise fun e f => (e.source == f.source && e.target == f.target) = false
  /-- An edge joins two keys exactly when a node somewhere in the tree has the one and one of its
  children the other. -/
  joins_iff : ∀ source target, (∃ e ∈ g.edges, (e.source == source && e.target == target) = true) ↔
    ∃ position u, t.subtree? position = some u ∧
      ∃ c ∈ u.children, (u.info.key == source && c.info.key == target) = true
  /-- Every edge has the given direction, and both of its ends are nodes. -/
  ends : ∀ e ∈ g.edges, e.direction = direction ∧ (g.node? e.source).isSome = true ∧
    (g.node? e.target).isSome = true

/-- Going through a tree with a stack meets every node once, at its position and in the order of the
positions. By this order, the tree flattens to its quotient by the keys. -/
theorem flattens_to_quotient (t : Tree) (direction : EdgeDirection) :
    Visits [t] t.preorder ∧
      (t.places.map Prod.snd = t.preorder ∧ (t.places.map Prod.fst).Pairwise (· < ·) ∧
        ∀ position info, (position, info) ∈ t.places ↔
          (t.subtree? position).map Tree.info = some info) ∧
      t.IsQuotient t.preorder direction (t.toGraph direction) := by
  refine ⟨visits_preorder t, ⟨map_snd_places t, pairwise_places t, fun _ _ => mem_places_iff⟩, ?_⟩
  refine ⟨nodes_toGraph_eq t direction, pairwise_edges_toGraph t direction, fun source target => ?_,
    fun e he => ?_⟩
  · rw [exists_edge_toGraph_iff]
    constructor
    · rintro ⟨_, ⟨position, u, hu, c, hc, rfl⟩, hjoins⟩
      exact ⟨position, u, hu, c, hc, hjoins⟩
    · rintro ⟨position, u, hu, c, hc, hjoins⟩
      exact ⟨_, ⟨position, u, hu, c, hc, rfl⟩, hjoins⟩
  · exact ⟨direction_of_mem_edges_toGraph he, ends_of_mem_edges_toGraph he⟩

end Tree

end TemplateAtlas
