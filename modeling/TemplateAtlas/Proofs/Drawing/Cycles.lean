import TemplateAtlas.Proofs.Drawing.Dot
import TemplateAtlas.Proofs.Graph.Flattening

/-!
# Cycles in the drawing of a tree

A child that marks a cycle says so at the edge to it, but a drawing tells an edge that closes a
cycle by how its text ends. The text at the edge to a child with an alias that marks a cycle ends in
a bracket, and without a cycle it ends as the alias does, so an edge is drawn as a cycle where its
child marks none and its alias ends in that word, and is not where its child marks one and has an
alias. Main statement: these are the only edges that are not drawn as their children say
(`Tree.drawing_of_edge`).
-/

namespace TemplateAtlas

open TemplateAtlas.Dot

/-- Does the text at the edge to a child end as that at the edge to a cycle without an alias? -/
def TreeInfo.looksLikeCycle (child : TreeInfo) : Bool :=
  match child.alias? with
  | some name => !child.cycle && saysCycle name
  | none => child.cycle

theorem Dot.saysCycle_at_append (name : String) : saysCycle ("@" ++ name) = saysCycle name := by
  have hat : "cycle".toList ≠ '@' :: name.toList := fun h => by simpa using congrArg List.head? h
  rw [Bool.eq_iff_iff, saysCycle, saysCycle, List.isSuffixOf_iff_suffix, List.isSuffixOf_iff_suffix,
    String.toList_append]
  exact (List.suffix_cons_iff).trans (or_iff_right hat)

theorem Dot.saysCycle_append_bracket (text : String) : saysCycle (text ++ " (cycle)") = false := by
  rw [Bool.eq_false_iff, Ne, saysCycle, List.isSuffixOf_iff_suffix, String.toList_append]
  intro h
  obtain ⟨front, hfront⟩ := h
  have hlast := congrArg List.getLast? hfront
  simp at hlast

theorem Tree.any_saysCycle_edgeLabel? (child : TreeInfo) :
    (edgeLabel? child).any saysCycle = child.looksLikeCycle := by
  have hplain : saysCycle "cycle" = true := by decide
  unfold edgeLabel? TreeInfo.looksLikeCycle
  cases child.alias? <;> cases child.cycle <;>
    simp [hplain, saysCycle_at_append, saysCycle_append_bracket]

/-- A child is drawn as it says, unless it has an alias, and either marks a cycle or has an alias
that says so. -/
theorem TreeInfo.looksLikeCycle_eq_cycle_iff (child : TreeInfo) :
    child.looksLikeCycle = child.cycle ↔
      ∀ name, child.alias? = some name → child.cycle = false ∧ saysCycle name = false := by
  unfold looksLikeCycle
  cases child.alias? <;> cases child.cycle <;> simp

namespace Tree

variable {t : Tree} {direction : EdgeDirection} {e : GraphEdge}

/-- How an edge to a node that is not broken is drawn. -/
theorem edgeStyle_toGraph {link : Link}
    (hsound : ∀ node ∈ (t.toGraph direction).nodes, (node.key == e.target) = true →
      node.kind.isBroken = false)
    (he : e = link.edge direction) :
    edgeStyle (t.toGraph direction) e = if link.child.looksLikeCycle then .cycle else .plain := by
  have hnone : ((t.toGraph direction).nodes.any fun node => node.kind.isBroken && node.key ==
      e.target) = false := by
    rw [List.any_eq_false]
    intro node hmem hbroken
    rw [Bool.and_eq_true] at hbroken
    rw [hsound node hmem hbroken.2] at hbroken
    cases hbroken.1
  have hlabel : e.label?.any saysCycle = link.child.looksLikeCycle := by
    rw [he]
    exact any_saysCycle_edgeLabel? link.child
  rw [edgeStyle, hnone, hlabel, if_neg Bool.false_ne_true]

/-- In the drawing of the graph of a tree, an edge to a node that is not broken has the text of the
first child with its keys. It is drawn as a cycle where that text ends like one, and so it is drawn
as the child says, except where the child has an alias, and either marks a cycle or has an alias
that ends like one. -/
theorem drawing_of_edge (options : DotOptions) {i : Nat}
    (he : (t.toGraph direction).edges[i]? = some e)
    (hsound : ∀ node ∈ (t.toGraph direction).nodes, (node.key == e.target) = true →
      node.kind.isBroken = false) :
    ∃ statements link style, read (render (t.toGraph direction) options) = some statements ∧
      (statements.filter Statement.isEdge)[i]? = some (.edge e.source.id e.target.id
        [("label", e.label?.getD ""), ("color", style.colour), ("style", style.line)]) ∧
      t.links.find? (·.joins e.source e.target) = some link ∧ e.label? = edgeLabel? link.child ∧
      style = (if link.child.looksLikeCycle then EdgeStyle.cycle else EdgeStyle.plain) ∧
      ((style = .cycle ↔ link.child.cycle = true) ↔
        ∀ name, link.child.alias? = some name → link.child.cycle = false ∧
          saysCycle name = false) := by
  obtain ⟨link, hfirst, hedge⟩ := mem_edges_toGraph_iff.1 (List.mem_of_getElem? he)
  have hstyle := edgeStyle_toGraph hsound hedge
  refine ⟨document (t.toGraph direction) options, link, edgeStyle (t.toGraph direction) e,
    read_render _ _, ?_, hfirst,
    ?_, hstyle, ?_⟩
  · rw [filter_isEdge_document, List.getElem?_map, he]
    rfl
  · rw [hedge]
    rfl
  · have hcycle : edgeStyle (t.toGraph direction) e = .cycle ↔
        link.child.looksLikeCycle = true := by
      rw [hstyle]
      cases link.child.looksLikeCycle <;> decide
    rw [hcycle, ← TreeInfo.looksLikeCycle_eq_cycle_iff]
    exact Bool.eq_iff_iff.symm

/-- Two files that refer to each other, each through an alias. -/
def aliasedCycle : Tree :=
  .node (.new (.file ⟨"/home/a.yml"⟩) .template none none)
    [.node (.new (.file ⟨"/other/b.yml"⟩) .external (some 5) (some "lib"))
      [.leaf
        { TreeInfo.new (.file ⟨"/home/a.yml"⟩) .external (some 5) (some "back") with
          cycle := true }]]

/-- The reference back closes a cycle and is not drawn as one. -/
theorem drawing_of_aliasedCycle :
    (aliasedCycle.toGraph .toTemplates).edges[0]? =
        some ⟨.file ⟨"/other/b.yml"⟩, .file ⟨"/home/a.yml"⟩, .toTemplates, some "@back (cycle)"⟩ ∧
      (∀ node ∈ (aliasedCycle.toGraph .toTemplates).nodes,
        (node.key == .file ⟨"/home/a.yml"⟩) = true → node.kind.isBroken = false) ∧
      aliasedCycle.countCycles = 1 ∧
      ∃ statements, read (render (aliasedCycle.toGraph .toTemplates) {}) = some statements ∧
        (statements.filter Statement.isEdge)[0]? =
          some (.edge "file:/other/b.yml" "file:/home/a.yml"
          [("label", "@back (cycle)"), ("color", "#555555"), ("style", "solid")]) := by
  have hedge : (aliasedCycle.toGraph .toTemplates).edges[0]? =
      some ⟨.file ⟨"/other/b.yml"⟩, .file ⟨"/home/a.yml"⟩, .toTemplates, some "@back (cycle)"⟩ :=
        rfl
  have hsound : ∀ node ∈ (aliasedCycle.toGraph .toTemplates).nodes,
      (node.key == .file ⟨"/home/a.yml"⟩) = true → node.kind.isBroken = false := by
    decide +kernel
  refine ⟨hedge, hsound, rfl, ?_⟩
  obtain ⟨statements, link, style, hread, hstatement, hfind, -, hstyle, -⟩ :=
    drawing_of_edge {} hedge hsound
  have hlink : link.child.looksLikeCycle = false := by
    rw [← Option.some.inj hfind]
    rfl
  rw [hlink] at hstyle
  refine ⟨statements, hread, hstatement.trans ?_⟩
  rw [hstyle]
  rfl

end Tree

end TemplateAtlas
