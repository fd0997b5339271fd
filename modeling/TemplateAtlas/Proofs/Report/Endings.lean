import TemplateAtlas.Corpus.Ignore
import TemplateAtlas.Proofs.Files.Write
import TemplateAtlas.Proofs.Report.Diagnostic

/-!
# Readings and line endings

Nothing that is read of a file depends on how its lines end: neither what is extracted from its text
nor what a check of any file finds (`readings_independent_of_endings`). Two file trees that differ
in line endings alone answer every path alike, so they are the same to a check
(`FileTree.SameLines.view`).
-/

namespace TemplateAtlas

open Inquiry
open TemplateAtlas.Text TemplateAtlas.Template

/-! ### Texts that differ in their line endings -/

section Texts

theorem head?_normalizeEndings (c : Char) (cs : List Char) :
    (normalizeEndings (c :: cs)).head? = some (if c = '\r' then '\n' else c) := by
  rw [normalizeEndings_cons]
  split
  · rw [List.head?_cons]
  · rw [List.head?_cons]

/-- A byte order mark is found in the normal form of a text, if and only if it is found in the
text. -/
theorem normalizeEndings_dropMark (text : String) :
    normalizeEndings (dropMark text).toList =
      if (normalizeEndings text.toList).head? =
        some '\ufeff' then (normalizeEndings text.toList).tail
      else normalizeEndings text.toList := by
  unfold dropMark
  cases htext : text.toList with
  | nil =>
    rw [htext]
    rfl
  | cons c cs =>
    by_cases hc : c = '\ufeff'
    · have hreturn : c ≠ '\r' := by rw [hc]; decide
      have hhead : (c :: normalizeEndings cs).head? = some '\ufeff' := by rw [hc]; rfl
      simp only [if_pos hc]
      rw [String.toList_ofList, normalizeEndings_cons_of_ne hreturn, if_pos hhead, List.tail_cons]
    · have hhead : (normalizeEndings (c :: cs)).head? ≠ some '\ufeff' := by
        rw [head?_normalizeEndings]
        split
        · decide
        · simpa using hc
      simp only [if_neg hc]
      rw [htext, if_neg hhead]

theorem linesOf_dropMark {a b : String}
    (h : normalizeEndings a.toList = normalizeEndings b.toList) :
    linesOf (dropMark a) = linesOf (dropMark b) := by
  rw [linesOf, linesOf, normalizeEndings_dropMark, normalizeEndings_dropMark, h]

end Texts

/-! ### File trees that differ in line endings -/

/-- What is seen of a node by someone who does not see how lines end: nothing of a directory, and of
a file its lines, if it holds text. -/
def Node.shown : Node → Option (Option (List (List Char)))
  | .directory => none
  | .file v => some (v.body?.map linesOf)

namespace FileTree

/-- The same stands in the same places, but for the endings of lines. -/
structure SameLines (tree tree' : FileTree) : Prop where
  /-- Relative paths start in the same directory. -/
  working : tree.working = tree'.working
  /-- Someone who does not see how lines end sees the same. -/
  node : ∀ q, (tree.node? q).map Node.shown = (tree'.node? q).map Node.shown

namespace SameLines

variable {tree tree' : FileTree} (h : tree.SameLines tree')
include h

theorem isSome_node? (q : Location) : (tree.node? q).isSome = (tree'.node? q).isSome := by
  rw [← Option.isSome_map (f := Node.shown), h.node, Option.isSome_map]

/-- A step leads to the same place. -/
theorem step (place : Location) (name : List UInt8) :
    tree.step place name = tree'.step place name := by
  have hplace := h.node place
  unfold FileTree.step
  cases hnode : tree.node? place with
  | none => cases hnode' : tree'.node? place <;> simp [hnode, hnode'] at hplace ⊢
  | some node =>
    cases hnode' : tree'.node? place with
    | none => simp [hnode, hnode'] at hplace
    | some node' =>
      rw [hnode, hnode'] at hplace
      cases node <;> cases node' <;> simp_all [Node.shown, h.isSome_node?]

/-- A path leads to the same place. -/
theorem locate (p : Path) : tree.locate p = tree'.locate p := by
  have hstart : tree.start p.text.bytes = tree'.start p.text.bytes := by
    rw [FileTree.start, FileTree.start, h.working]
  have hstep : tree.step = tree'.step := funext fun place => funext fun name => h.step place name
  rw [FileTree.locate, FileTree.locate, hstart, hstep]

theorem nodeAt? (p : Path) :
    (tree.nodeAt? p).map Node.shown = (tree'.nodeAt? p).map Node.shown := by
  rw [FileTree.nodeAt?, FileTree.nodeAt?, h.locate]
  split
  · exact h.node _
  · rfl

theorem exists? (p : Path) : tree.exists? p = tree'.exists? p := by
  rw [FileTree.exists?, FileTree.exists?, ← Option.isSome_map (f := Node.shown), h.nodeAt?,
    Option.isSome_map]

/-- The files are the same, and they have the same lines. -/
theorem fileAt? (p : Path) :
    (tree.fileAt? p).map (·.body?.map linesOf) = (tree'.fileAt? p).map (·.body?.map linesOf) := by
  have hnode := h.nodeAt? p
  unfold FileTree.fileAt?
  cases hp : tree.nodeAt? p with
  | none => cases hp' : tree'.nodeAt? p <;> simp [hp, hp'] at hnode ⊢
  | some node =>
    cases hp' : tree'.nodeAt? p with
    | none => simp [hp, hp'] at hnode
    | some node' =>
      rw [hp, hp'] at hnode
      cases node <;> cases node' <;> simp_all [Node.shown]

theorem rootAbove (directory : Path) : tree.rootAbove directory = tree'.rootAbove directory := by
  have hmarked : tree.isRepositoryRoot = tree'.isRepositoryRoot := funext fun p => h.exists? _
  rw [FileTree.rootAbove, FileTree.rootAbove, hmarked]

/-- The trees are the same to whoever asks for files and sees the lines of their texts. -/
theorem view : tree.view.SameLines tree'.view := by
  constructor
  · intro p
    have hfile := h.fileAt? p
    rw [view_text, view_text]
    cases hp : tree.fileAt? p <;> cases hp' : tree'.fileAt? p <;> simp_all
  · intro p
    rw [view_isFile, view_isFile, isFile, isFile, ← Option.isSome_map (f := (·.body?.map linesOf)),
      h.fileAt?, Option.isSome_map]

end SameLines

/-- Writing texts that differ in their line endings to one place makes trees that differ in nothing
else. -/
theorem sameLines_put {a b : String} (h : normalizeEndings a.toList = normalizeEndings b.toList)
    (tree : FileTree) (place : Location) (time? time?' : Option Nat) :
    (tree.put place a.toUTF8 time?).SameLines (tree.put place b.toUTF8 time?') := by
  constructor
  · cases time? <;> cases time?' <;> rfl
  · intro q
    by_cases hq : q = place
    · subst hq
      by_cases hnil : q = []
      · rw [hnil, node?_nil, node?_nil]
      · obtain ⟨stamp, hself⟩ : ∃ stamp, (tree.put q a.toUTF8 time?).node? q =
            some (.file ⟨a.toUTF8, stamp⟩) :=
          node?_put_self hnil _ _
        obtain ⟨stamp', hself'⟩ : ∃ stamp, (tree.put q b.toUTF8 time?').node? q =
            some (.file ⟨b.toUTF8, stamp⟩) :=
          node?_put_self hnil _ _
        rw [hself, hself', Option.map_some, Option.map_some, Node.shown, Node.shown,
          FileVersion.body?_toUTF8, FileVersion.body?_toUTF8, Option.map_some, Option.map_some,
          linesOf_dropMark h]
    · rw [node?_put_of_ne _ _ hq, node?_put_of_ne _ _ hq]

end FileTree

theorem RootMemo.root_of_sameLines {tree tree' : FileTree} (h : tree.SameLines tree')
    (memo : RootMemo) (file : Path) : memo.root tree file = memo.root tree' file := by
  rw [RootMemo.root, RootMemo.root, h.rootAbove]

/-- Workspaces that remember nothing wrong of the files, and the same roots, find the same in trees
that differ in line endings alone. -/
theorem Workspace.checkFile_of_sameLines {tree tree' : FileTree} (h : tree.SameLines tree')
    {ws ws' : Workspace} (hws : ws.memory.cache.Agrees (fun _ => True) tree)
    (hws' : ws'.memory.cache.Agrees (fun _ => True) tree')
    (hroots : ws.memory.roots = ws'.memory.roots) (file : Path) :
    (ws.ask tree (checkFile file)).1 = (ws'.ask tree' (checkFile file)).1 := by
  have hroot : (ws.memory.roots.root tree file).1 = (ws'.memory.roots.root tree' file).1 := by
    rw [RootMemo.root_of_sameLines h, hroots]
  -- a check asks for the root of this one file, so a view may give any other file the same
  let view : View := { tree.view with root := fun _ => (ws.memory.roots.root tree file).1 }
  let view' : View := { tree'.view with root := fun _ => (ws'.memory.roots.root tree' file).1 }
  have hsame : view.SameLines view' := ⟨h.view.lines, h.view.isFile⟩
  have hfound : (ws.ask tree (checkFile file)).1 = (checkFile file).answer view :=
    ask_checkFile hws ⟨fun _ => rfl, fun _ => rfl⟩ rfl
  have hfound' : (ws'.ask tree' (checkFile file)).1 = (checkFile file).answer view' :=
    ask_checkFile hws' ⟨fun _ => rfl, fun _ => rfl⟩ rfl
  rw [hfound, hfound', checkFile_congr hsame hroot]

/-- Take lines that end each in its own way, no carriage return being directly followed by an empty
line that ends with a line feed. The normal form of their text has line feeds, and is its own normal
form. Text and normal form declare the same parameters and repositories on the same lines, refer to
the same templates, use the same parameters and are of the same kind. Wherever the one is written or
the other, a check of any file finds the same on the same lines, in every workspace that remembers
nothing wrong of the files. -/
theorem readings_independent_of_endings {lines : List EndedLine}
    (hapart : lines.IsChain EndedLine.Apart) {last : List Char} (hlast : IsOneLine last) :
    let text := String.ofList (endedText lines last)
    let plain := String.ofList (joinLines (lines.map EndedLine.text ++ [last]))
    normalizeEndings text.toList = plain.toList ∧
      (∀ cs, normalizeEndings (normalizeEndings cs) = normalizeEndings cs) ∧
      parameters text = parameters plain ∧ repositoryAliases text = repositoryAliases plain ∧
      references text = references plain ∧ usages text = usages plain ∧
      isPipelineRoot text = isPipelineRoot plain ∧
      ∀ (tree : FileTree) (place : Location) (time? time?' : Option Nat)
        (ws ws' : Workspace) (file : Path),
        let mixed := tree.put place text.toUTF8 time?
        let fed := tree.put place plain.toUTF8 time?'
        ws.memory.cache.Agrees (fun _ => True) mixed → ws'.memory.cache.Agrees (fun _ => True) fed →
        ws.memory.roots = ws'.memory.roots →
        (ws.ask mixed (checkFile file)).1 = (ws'.ask fed (checkFile file)).1 := by
  intro text plain
  have hnormal : normalizeEndings text.toList = plain.toList := by
    rw [String.toList_ofList, String.toList_ofList, normalizeEndings_endedText hapart hlast]
  have hstable : ∀ cs, normalizeEndings (normalizeEndings cs) = normalizeEndings cs := fun cs =>
    normalizeEndings_of_notMem (carriage_notMem_normalizeEndings cs)
  have hsame : normalizeEndings text.toList = normalizeEndings plain.toList := by
    rw [← hnormal, hstable]
  have hlines : linesOf text = linesOf plain := congrArg (splitOn '\n') hsame
  refine ⟨hnormal, hstable, parameters_of_linesOf hlines, repositoryAliases_of_linesOf hlines,
    references_of_linesOf hlines, usages_of_linesOf hlines, isPipelineRoot_of_linesOf hlines, ?_⟩
  intro tree place time? time?' ws ws' file mixed fed hws hws' hroots
  exact Workspace.checkFile_of_sameLines (FileTree.sameLines_put hsame tree place time? time?') hws
    hws' hroots file

/-- A template with all three endings, in which a carriage return and a line feed stand for two
endings next to an empty line. It calls itself. -/
theorem readings_of_three_endings :
    let lines : List EndedLine :=
      [⟨"parameters:".toList, .carriage, by decide⟩, ⟨"- name: region".toList, .feed, by decide⟩,
        ⟨[], .carriage, by decide⟩, ⟨[], .carriageFeed, by decide⟩,
        ⟨"- template: a.yml".toList, .carriageFeed, by decide⟩]
    let text := String.ofList (endedText lines "- template: b.yml".toList)
    let plain := "parameters:\n- name: region\n\n\n- template: a.yml\n- template: b.yml"
    let mixed := FileTree.put {} ["a.yml"] text.toUTF8 none
    let fed := FileTree.put {} ["a.yml"] plain.toUTF8 none
    lines.IsChain EndedLine.Apart ∧ IsOneLine "- template: b.yml".toList ∧
      references text = [⟨"a.yml", 4⟩, ⟨"b.yml", 5⟩] ∧
      ((Workspace.new .ofRules mixed ⟨"/"⟩ {}).ask mixed (checkFile ⟨"/a.yml"⟩)).1 =
        ((Workspace.new .ofRules fed ⟨"/"⟩ {}).ask fed (checkFile ⟨"/a.yml"⟩)).1 := by
  intro lines text plain mixed fed
  have hapart : lines.IsChain EndedLine.Apart := by decide
  have hlast : IsOneLine "- template: b.yml".toList := by decide
  have hplain : String.ofList
      (joinLines (lines.map EndedLine.text ++ ["- template: b.yml".toList])) = plain := by
    decide +kernel
  obtain ⟨-, -, -, -, hreferences, -, -, hcheck⟩ := readings_independent_of_endings hapart hlast
  rw [hplain] at hreferences hcheck
  refine ⟨hapart, hlast, ?_, hcheck {} ["a.yml"] none none (Workspace.new .ofRules mixed ⟨"/"⟩ {})
    (Workspace.new .ofRules fed ⟨"/"⟩ {})
    ⟨"/a.yml"⟩ (Cache.agrees_empty _ mixed) (Cache.agrees_empty _ fed) rfl⟩
  rw [hreferences]
  decide +kernel

end TemplateAtlas
