import TemplateAtlas.Proofs.Corpus.Filter
import TemplateAtlas.Proofs.Drawing.DotReader
import TemplateAtlas.Proofs.Graph.Repository

/-!
# Identifiers of nodes

A drawing tells its nodes apart by their identifiers. An identifier opens with a word for the kind
of the key, and that of an undeclared alias goes on with the alias, a colon and the reference:

    alias:prod:jobs/build.yml@prod

Both may hold colons themselves, so the colon between them does not tell where the alias ends. The
reference does: its alias is what follows its last at sign, and a text that is put in front of a
reference leaves that as it is (`NodeKey.eq_or_of_id_of_isNamed`). Every key that the graph of a
workspace, a tree or the graph of a tree holds is of this form, whatever the files say
(`NodeKey.Occurs.isNamed`). The path of a file, however, is written as it is shown, and two paths
that are no texts may be shown alike. Such files are the only keys that a drawing confuses
(`NodeKey.confused_iff_shown_alike`).
-/

namespace TemplateAtlas

open Inquiry TemplateAtlas.Text TemplateAtlas.Template

/-! ### Texts in quotes -/

namespace Dot

theorem escape_inj {s t : String} (h : escape s = escape t) : s = t := by
  have hs : Runs (.inQuotes []) (escape s).toList [] (.inQuotes s.toList) := Inside.escape s []
  have ht : Runs (.inQuotes []) (escape t).toList [] (.inQuotes t.toList) := Inside.escape t []
  rw [h] at hs
  have hsame := hs.symm.trans ht
  simp only [Option.some.injEq, Prod.mk.injEq, Lexing.inQuotes.injEq, true_and] at hsame
  exact String.toList_inj.1 hsame

theorem quoted_inj {s t : String} (h : quoted s = quoted t) : s = t := by
  have hlist := congrArg String.toList h
  rw [quoted, quoted, String.toList_append, String.toList_append, String.toList_append,
    String.toList_append, List.append_cancel_right_eq, List.append_cancel_left_eq] at hlist
  exact String.toList_inj.1 hlist

end Dot

/-! ### Keys that name their aliases -/

namespace NodeKey

/-- The alias of an undeclared one is that of the reference: the text behind its last at sign,
without blanks around. -/
def IsNamed : NodeKey → Prop
  | file _ => True
  | missing _ => True
  | unknownAlias name raw => (splitAlias raw).2 = some name

instance : DecidablePred IsNamed
  | file _ => inferInstanceAs (Decidable True)
  | missing _ => inferInstanceAs (Decidable True)
  | unknownAlias name raw => inferInstanceAs (Decidable ((splitAlias raw).2 = some name))

/-- A text in front of a reference with an alias does not change the alias. -/
theorem splitAlias_append {raw name : String} (h : (splitAlias raw).2 = some name)
    (front : String) : (splitAlias (front ++ raw)).2 = some name := by
  obtain ⟨path, after, hsplit, hname⟩ := splitAlias_snd_eq_some_iff.1 h
  refine splitAlias_snd_eq_some_iff.2 ⟨front.toList ++ path, after, ?_, hname⟩
  rw [String.toList_append, splitLast?_append_left hsplit]

/-- Two aliases with their references, written with a colon between, are told apart by the aliases
of the references. -/
theorem alias_and_raw_inj {name raw name' raw' : String} (h : (splitAlias raw).2 = some name)
    (h' : (splitAlias raw').2 = some name') (heq : name ++ ":" ++ raw = name' ++ ":" ++ raw') :
    name = name' ∧ raw = raw' := by
  -- if one alias is longer, the other reference is its own reference with a text in front
  have hshorter : ∀ {n r n' r' : String} {rest : List Char}, (splitAlias r).2 = some n →
      (splitAlias r').2 = some n' →
      n'.toList = n.toList ++ rest → ':' :: r.toList = rest ++ ':' :: r'.toList →
        n = n' ∧ r = r' := by
    intro n r n' r' rest hr hr' hlonger hcolon
    cases rest with
    | nil =>
      exact ⟨String.toList_inj.1 (by simpa using hlonger.symm),
        String.toList_inj.1 (by simpa using hcolon)⟩
    | cons c rest =>
      obtain ⟨-, hraw⟩ := List.cons.inj hcolon
      have hfront : r = String.ofList (rest ++ [':']) ++ r' := String.toList_inj.1 (by simp [hraw])
      rw [hfront, splitAlias_append hr'] at hr
      have hsame : n'.toList.length = n.toList.length := by rw [Option.some.inj hr]
      rw [hlonger, List.length_append, List.length_cons] at hsame
      omega
  have hlist := congrArg String.toList heq
  simp only [String.toList_append, List.append_assoc] at hlist
  rcases List.append_eq_append_iff.1 hlist with ⟨rest, hlonger, hcolon⟩ | ⟨rest, hlonger, hcolon⟩
  · exact hshorter h h' hlonger hcolon
  · obtain ⟨hname, hraw⟩ := hshorter h' h hlonger hcolon
    exact ⟨hname.symm, hraw.symm⟩

/-- Two keys of files, both there or both absent, whose paths are shown alike. -/
inductive ShownAlike : NodeKey → NodeKey → Prop where
  /-- The files are there. -/
  | file {p q : Path} : p.shown = q.shown → ShownAlike (.file p) (.file q)
  /-- The files are absent. -/
  | missing {p q : Path} : p.shown = q.shown → ShownAlike (.missing p) (.missing q)

theorem ShownAlike.id_eq {k l : NodeKey} (h : k.ShownAlike l) : k.id = l.id := by
  cases h with
  | file h => rw [id, id, h]
  | missing h => rw [id, id, h]

/-- Paths that are shown alike are the same, if no character stands for what could not be shown. -/
theorem ShownAlike.eq {k l : NodeKey} (h : k.ShownAlike l) (htext : '\ufffd' ∉ k.id.toList) :
    k = l := by
  have hpath : ∀ {p q : Path}, p.shown = q.shown → '\ufffd' ∉ p.shown.toList → p = q := by
    intro p q hshown hp
    have hq : '\ufffd' ∉ q.shown.toList := hshown ▸ hp
    have hptext : RawText.ofString p.shown = p.text := RawText.ofString_shown hp
    have hqtext : RawText.ofString q.shown = q.text := RawText.ofString_shown hq
    exact congrArg Path.mk (by rw [← hptext, hshown, hqtext])
  cases h with
  | file h => exact congrArg NodeKey.file (hpath h fun hmem => htext (by simp [id, hmem]))
  | missing h => exact congrArg NodeKey.missing (hpath h fun hmem => htext (by simp [id, hmem]))

/-- Keys with one text are of files whose paths are shown alike, or of undeclared aliases. -/
theorem shownAlike_or_of_id {k l : NodeKey} (h : k.id = l.id) :
    k.ShownAlike l ∨ (k.baseKind = .unknownAlias ∧ l.baseKind = .unknownAlias) := by
  have hlist := congrArg String.toList h
  cases k <;> cases l <;> simp [id, String.toList_append] at hlist
  case file.file p q => exact .inl (.file (String.toList_inj.1 hlist))
  case missing.missing p q => exact .inl (.missing (String.toList_inj.1 hlist))
  case unknownAlias.unknownAlias => exact .inr ⟨rfl, rfl⟩

/-- Keys that name their aliases are told apart by their texts, up to files whose paths are shown
alike. -/
theorem eq_or_of_id_of_isNamed {k l : NodeKey} (hk : k.IsNamed) (hl : l.IsNamed) (h : k.id = l.id) :
    k = l ∨ k.ShownAlike l := by
  rcases shownAlike_or_of_id h with halike | ⟨hkind, hkind'⟩
  · exact .inr halike
  · cases k <;> cases l <;> cases hkind <;> cases hkind'
    next name raw name' raw' =>
      have htail : name ++ ":" ++ raw = name' ++ ":" ++ raw' := by
        rw [id, id, String.append_assoc, String.append_assoc, String.append_assoc,
          String.append_assoc] at h
        rw [String.append_assoc, String.append_assoc]
        exact String.toList_inj.1 (by simpa using congrArg String.toList h)
      obtain ⟨rfl, rfl⟩ := alias_and_raw_inj hk hl htail
      exact .inl rfl

/-- A resolved reference whose alias is not declared names the alias of the reference as it is
written. -/
theorem yields_resolve_named (raw : String) (file : Path) (aliases : AliasTable) :
    (resolve raw file aliases).Yields fun resolved? =>
      ∀ name, resolved? = some (.unknownAlias name) → (splitAlias raw).2 = some name := by
  rcases resolve_cases raw aliases with hraw | ⟨path, hraw⟩ | ⟨named, halias, hraw⟩
      | ⟨path, shortName, -, hraw⟩ <;>
    rw [hraw]
  · exact fun name h => nomatch h
  · exact (yields_true _).bind fun _ _ name h => nomatch h
  · rintro _ ⟨⟩
    exact (Option.filter_eq_some_iff.1 halias).1
  · exact (yields_true _).bind fun _ _ name h => nomatch h

/-- The ends of references name their aliases. -/
theorem goodEnds_isNamed : GoodEnds fun key _ => key.IsNamed := by
  have hone : ∀ file aliases r, (outgoingOf file aliases r).Yields fun o? =>
      ∀ o ∈ o?, o.key.IsNamed := by
    intro file aliases r
    unfold outgoingOf
    split
    · exact fun o ho => by cases ho
    · refine (yields_resolve_named r.raw file aliases).bind fun resolved? hnamed => ?_
      cases resolved? with
      | none => exact fun o ho => by cases ho
      | some resolved =>
        cases resolved with
        | unknownAlias name =>
          rintro _ ⟨⟩
          exact hnamed name rfl
        | path path repository? =>
          refine (yields_targetOf (.path path repository?)).bind fun target htarget => ?_
          rintro _ ⟨⟩
          unfold Outgoing.key
          cases target with
          | file => trivial
          | missing => trivial
          | unknownAlias name => cases htarget
  intro file
  refine ((yields_true _).bind fun text? _ => ?_ : (outgoing? file).Yields fun found? =>
    ∀ o ∈ found?.getD [], o.key.IsNamed).bind fun _ hfound => hfound
  cases text? with
  | none => exact fun _ h => by cases h
  | some text =>
    refine ((Yields.each fun r _ => hone file (repositoryAliases text) r).bind
      fun found hfound => ?_).bind fun found hfound => hfound
    intro o ho
    obtain ⟨o?, ho?, heq⟩ := List.mem_filterMap.1 ho
    exact hfound o? ho? o heq

end NodeKey

/-! ### Keys of graphs -/

namespace Graph

/-- The keys of a graph: those of its nodes and those at the ends of its edges. -/
def Mentions (g : Graph) (key : NodeKey) : Prop :=
  key ∈ g.keys ∨ ∃ e ∈ g.edges, e.source = key ∨ e.target = key

variable {good : NodeKey → Prop} {g : Graph}

/-- Are all keys of a graph good? -/
def Within (good : NodeKey → Prop) (g : Graph) : Prop :=
  (∀ key ∈ g.keys, good key) ∧ ∀ e ∈ g.edges, good e.source ∧ good e.target

theorem Within.of_mentions (h : g.Within good) {key : NodeKey} (hkey : g.Mentions key) :
    good key := by
  rcases hkey with hnode | ⟨e, he, rfl | rfl⟩
  · exact h.1 key hnode
  · exact (h.2 e he).1
  · exact (h.2 e he).2

theorem forall_mem_appendNew {α : Type} {same : α → α → Bool} {kept : List α} {p : α → Prop}
    (h : ∀ b ∈ kept, p b) {a : α} (ha : p a) : ∀ b ∈ appendNew same kept a, p b := by
  unfold appendNew
  split
  · exact h
  · exact List.forall_mem_append.2 ⟨h, List.forall_mem_singleton.2 ha⟩

theorem Within.addNode (h : g.Within good) {n : GraphNode} (hn : good n.key) :
    (g.addNode n).Within good := by
  rw [Within, keys_addNode, addNode_edges]
  exact ⟨forall_mem_appendNew h.1 hn, h.2⟩

theorem Within.addReference (h : g.Within good) {file : Path} (hfile : good (.file file))
    {o : Outgoing} (ho : good o.key) : (Graph.addReference file g o).Within good := by
  have hkeys : (Graph.addReference file g o).keys = appendNew (· == ·) g.keys o.key := by
    rw [keys, Graph.addReference, addEdge_nodes, ← keys, keys_addTarget]
  rw [Within, hkeys, Graph.addReference, addEdge_edges, addTarget_edges]
  exact ⟨forall_mem_appendNew h.1 ho, forall_mem_appendNew h.2 ⟨hfile, ho⟩⟩

theorem Within.foldl {α : Type} {step : Graph → α → Graph} {as : List α} (h : g.Within good)
    (hstep : ∀ a ∈ as, ∀ g : Graph, g.Within good → (step g a).Within good) :
    (as.foldl step g).Within good := by
  induction as generalizing g with
  | nil => exact h
  | cons a as ih => exact ih (hstep a (by simp) g h) fun b hb => hstep b (by simp [hb])

theorem within_empty : ({} : Graph).Within good :=
  ⟨fun _ h => (by cases h), fun _ h => (by cases h)⟩

end Graph

/-- Counting parameters leaves the key of a node as it is. -/
theorem yields_countParameters (n : GraphNode) :
    (countParameters n).Yields fun m => m.key = n.key := by
  unfold countParameters
  split
  · exact (yields_true _).bind fun _ _ => yields_pure_iff.2 rfl
  · exact yields_pure_iff.2 rfl

/-- Counting the parameters of all nodes leaves the keys of a graph as they are. -/
theorem yields_countAll {good : NodeKey → Prop} {g : Graph} (h : g.Within good) :
    (do return { g with nodes := ← each countParameters g.nodes } : Inquiry Graph).Yields fun g =>
      g.Within good := by
  have hcounted : ∀ n ∈ g.nodes, (countParameters n).Yields fun m => good m.key := fun n hn =>
    (yields_countParameters n).mono fun m hm => hm ▸ h.1 n.key (List.mem_map_of_mem hn)
  refine (Yields.each hcounted).bind fun nodes hnodes => ⟨fun key hkey => ?_, h.2⟩
  obtain ⟨m, hm, rfl⟩ := List.mem_map.1 hkey
  exact hnodes m hm

/-- The keys of the graph of files are those of the files and those of the ends of their
references. -/
theorem yields_workspaceGraph {good : NodeKey → Prop} (hfiles : ∀ p, good (.file p))
    (hends : GoodEnds fun key _ => good key) (files : List Path) :
    (workspaceGraph files).Yields fun g => g.Within good := by
  have hclassify : ∀ file,
      (do return GraphNode.new (.file file) (← classify file) : Inquiry GraphNode).Yields
      fun n => good n.key := fun file => (yields_true _).bind fun _ _ => hfiles file
  have hrefs : ∀ file, (do return (file, ← outgoing file) : Inquiry (Path × List Outgoing)).Yields
      fun found => ∀ o ∈ found.2, good o.key := fun file => (hends file).bind fun _ h => h
  refine (Yields.each fun file _ => hclassify file).bind fun own hown => ?_
  refine (Yields.each fun file _ => hrefs file).bind fun found hfound => ?_
  have hnodes : (own.foldl Graph.addNode {}).Within good :=
    Graph.within_empty.foldl fun n hn g hg => hg.addNode (hown n hn)
  refine yields_countAll (hnodes.foldl fun refs hmem g hg => ?_)
  exact hg.foldl fun o ho g hg => hg.addReference (hfiles refs.1) (hfound refs hmem o ho)

/-! ### Keys of trees -/

namespace Tree

variable {good : NodeKey → Prop}

/-- The keys of the graph of a tree are keys of the tree. -/
theorem within_toGraph {t : Tree} (direction : EdgeDirection) (h : t.Places fun key _ => good key) :
    (t.toGraph direction).Within good := by
  refine ⟨fun key hkey => ?_, fun e he => ?_⟩
  · obtain ⟨n, hn, rfl⟩ := List.mem_map.1 hkey
    exact (@nodes_toGraph (fun key _ => good key) t direction h n hn).2
  · obtain ⟨link, hfind, rfl⟩ := mem_edges_toGraph_iff.1 he
    exact links_good t h link (List.mem_of_find?_eq_some hfind)

end Tree

/-- The graph of a workspace whose index is not ready mentions every file of the corpus. -/
theorem Workspace.mentions_of_mem_corpus (ws : Workspace) {tree : FileTree} {p : Path}
    (h : tree.WellFormed) (hroot : ws.root.IsAddress)
    (hcache : ws.memory.cache.Agrees (fun _ => True) tree) (hready : ws.index.ready = false)
    (hp : p ∈ ws.corpus tree) : (ws.graph tree).1.Mentions (.file p) := by
  have hfiles : ws.files tree = ws.corpus tree := by simp [files, hready]
  have hapart : (ws.corpus tree).Pairwise fun p q => (p == q) = false :=
    (CorpusOptions.pairwise_files h hroot).imp Path.beq_eq_false_of_lt
  have hgraph : (ws.graph tree).1 = (workspaceGraph (ws.corpus tree)).answer
      (tree.viewWith (ws.graph tree).2.memory.roots id) := by
    rw [graph, hfiles]
    exact run_fst_eq_viewWith hcache id fun _ _ hfind => hfind
  obtain ⟨n, hn, hkey⟩ := (depicts_workspaceGraph hapart _).listed p hp
  rw [hgraph]
  exact .inl (hkey ▸ List.mem_map_of_mem hn)

/-! ### Keys that occur -/

/-- Does some workspace show the tree for a file, be it what the file refers to or what refers to
it? -/
def Tree.IsShown (t : Tree) : Prop :=
  ∃ (ws : Workspace) (tree : FileTree) (file : Path) (depth : Nat),
    t = (ws.templateTree tree file depth).1 ∨ t = (ws.callerTree tree file depth).1

/-- A key that occurs in what is shown. -/
inductive NodeKey.Occurs : NodeKey → Prop where
  /-- In the graph of files. -/
  | inGraph {key : NodeKey} (ws : Workspace) (tree : FileTree) (files : List Path) :
    (ws.ask tree (workspaceGraph files)).1.Mentions key → Occurs key
  /-- In a tree. -/
  | inTree {key : NodeKey} {t : Tree} : t.IsShown → key ∈ t.keys → Occurs key
  /-- In the graph of a tree. -/
  | inFlattened {key : NodeKey} {t : Tree} (direction : EdgeDirection) :
    t.IsShown → (t.toGraph direction).Mentions key → Occurs key

namespace NodeKey

theorem places_of_isShown {t : Tree} (h : t.IsShown) : t.Places fun key _ => key.IsNamed := by
  have hfiles : GoodFiles fun key _ => key.IsNamed := fun _ _ _ => trivial
  obtain ⟨ws, tree, file, depth, rfl | rfl⟩ := h
  · exact ws.places_templateTree tree file depth hfiles goodEnds_isNamed
  · exact ws.places_callerTree tree file depth hfiles

/-- Every key that occurs names its alias. -/
theorem Occurs.isNamed {key : NodeKey} (h : key.Occurs) : key.IsNamed := by
  cases h with
  | inGraph ws tree files hkey =>
    have hyields : (workspaceGraph files).Yields fun g => g.Within IsNamed :=
      yields_workspaceGraph (fun _ => trivial) goodEnds_isNamed files
    exact (hyields.run_fst tree ws.memory).of_mentions hkey
  | inTree hshown hkey =>
    obtain ⟨info, hinfo, rfl⟩ := List.mem_map.1 hkey
    exact places_of_isShown hshown info hinfo
  | inFlattened direction hshown hkey =>
    exact (Tree.within_toGraph direction (places_of_isShown hshown)).of_mentions hkey

/-- Two keys that occur get one identifier exactly if they are the same, or files whose paths are
shown alike. So a drawing confuses two different keys exactly if they are the keys of two files,
both there or both absent, with different paths that are shown alike, and none whose identifier is
free of replaced bytes. -/
theorem confused_iff_shown_alike {k l : NodeKey} (hk : k.Occurs) (hl : l.Occurs) :
    (Dot.nodeId k = Dot.nodeId l ↔ k = l ∨ k.ShownAlike l) ∧
      (Dot.nodeId k = Dot.nodeId l ∧ k ≠ l ↔
        ∃ p q : Path, p ≠ q ∧ p.shown = q.shown ∧
          (k = file p ∧ l = file q ∨ k = missing p ∧ l = missing q)) ∧
      (Dot.nodeId k = Dot.nodeId l → '\ufffd' ∉ k.id.toList → k = l) := by
  have hids : Dot.nodeId k = Dot.nodeId l ↔ k = l ∨ k.ShownAlike l := by
    constructor
    · exact fun h => eq_or_of_id_of_isNamed hk.isNamed hl.isNamed
        (Dot.escape_inj (Dot.quoted_inj h))
    · rintro (rfl | halike)
      · rfl
      · rw [Dot.nodeId, Dot.nodeId, halike.id_eq]
  refine ⟨hids, ⟨?_, ?_⟩, fun h htext => ?_⟩
  · rintro ⟨h, hne⟩
    cases (hids.1 h).resolve_left hne with
    | @file p q hshown => exact ⟨p, q, fun heq => hne (congrArg file heq), hshown, .inl ⟨rfl, rfl⟩⟩
    | @missing p q hshown =>
      exact ⟨p, q, fun heq => hne (congrArg missing heq), hshown, .inr ⟨rfl, rfl⟩⟩
  · rintro ⟨p, q, hne, hshown, ⟨rfl, rfl⟩ | ⟨rfl, rfl⟩⟩
    · exact ⟨hids.2 (.inr (.file hshown)), fun heq => hne (NodeKey.file.inj heq)⟩
    · exact ⟨hids.2 (.inr (.missing hshown)), fun heq => hne (NodeKey.missing.inj heq)⟩
  · exact (hids.1 h).elim (fun heq => heq) fun halike => halike.eq htext

/-- The graph of a corpus with two files, whose names have one byte before the extension that is no
character. -/
theorem confused_of_two_names :
    let first : RawText := ⟨0xfe :: (".yml" : RawText).bytes⟩
    let second : RawText := ⟨0xff :: (".yml" : RawText).bytes⟩
    let tree : FileTree := .put (.put (.makeDirectories {} ["r"]) ["r", first] "".toUTF8 none)
      ["r", second] "".toUTF8 none
    let g := ((Workspace.new .ofRules tree ⟨"/r"⟩ {}).graph tree).1
    let k := file (.address ["r", first])
    let l := file (.address ["r", second])
    (g.Mentions k ∧ g.Mentions l) ∧ k ≠ l ∧
      Dot.nodeId k = Dot.nodeId l ∧ Dot.nodeId k = "\"file:/r/\ufffd.yml\"" := by
  intro first second tree g k l
  let ws := Workspace.new .ofRules tree ⟨"/r"⟩ {}
  have htree : tree.WellFormed := by decide +kernel
  have hroot : ws.root.IsAddress := Workspace.isAddress_root_new .ofRules tree ⟨"/r"⟩ {}
  have hfound : ∀ name ∈ [first, second],
      tree.isFile (.address ["r", name]) = true ∧ ws.accepts (.address ["r", name]) = true ∧
        (ws.options.respectIgnore &&
          ws.reader.hides tree ws.root.place (Path.address ["r", name]).place) = false := by
    decide +kernel
  have hplaces : ∀ name ∈ [first, second], IsPlace ["r", name] := by decide
  have hmentions : ∀ name ∈ [first, second], g.Mentions (file (.address ["r", name])) := by
    intro name hname
    obtain ⟨hfile, haccepts⟩ := hfound name hname
    exact ws.mentions_of_mem_corpus htree hroot (Cache.agrees_empty _ _) rfl
      ((CorpusOptions.mem_files_iff_of_isFile htree hroot
        (Path.isAddress_address (hplaces name hname)) hfile).2 haccepts)
  have hk : g.Mentions k := hmentions first (by simp)
  have hl : g.Mentions l := hmentions second (by simp)
  have hpaths : Path.address ["r", first] ≠ Path.address ["r", second] := fun heq =>
    absurd (congrArg Path.text heq) (by decide)
  have hshown : (Path.address ["r", first]).shown = (Path.address ["r", second]).shown := by
    decide +kernel
  obtain ⟨-, hconfused, -⟩ :=
    confused_iff_shown_alike (.inGraph ws tree _ hk) (.inGraph ws tree _ hl)
  obtain ⟨hids, hne⟩ := hconfused.2 ⟨_, _, hpaths, hshown, .inl ⟨rfl, rfl⟩⟩
  exact ⟨⟨hk, hl⟩, hne, hids, by decide +kernel⟩

end NodeKey

end TemplateAtlas
