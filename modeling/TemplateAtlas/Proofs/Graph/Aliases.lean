import TemplateAtlas.Corpus.Ignore
import TemplateAtlas.Proofs.Files.Write
import TemplateAtlas.Proofs.Graph.Outgoing
import TemplateAtlas.Proofs.Template.Calls
import TemplateAtlas.Proofs.Template.References
import TemplateAtlas.Proofs.Template.Repositories
import TemplateAtlas.Workspace

/-!
# References through declared aliases

A reference `path@alias` is found on the line that makes it (`filter_line_answer_outgoing?`) and is
read from the checkout that the alias leads to, beside the checkout of the file
(`answer_outgoingOf_foreign`). Together with what is read of the repositories that a file declares,
this gives the way from the written entries to the targets (`Workspace.resolves_declared_aliases`),
whatever the memory that the file is read through.
-/

namespace TemplateAtlas

open Inquiry TemplateAtlas.Template TemplateAtlas.Text

variable {view : View} {file : Path} {text : String}

/-- What is found of the references on a line are the references that the line makes, if they can be
followed. -/
theorem filter_line_answer_outgoing? (htext : view.text file = some text) (number : Nat) :
    ((outgoing? file).answer view).map (List.filter (·.reference.line = number)) =
      some (((linesOf text)[number]?.bind (referenceOfLine? · number)).toList.filterMap fun r =>
        (outgoingOf file (repositoryAliases text) r).answer view) := by
  rw [answer_outgoing?, htext, Option.map_some, Option.map_some, ← filter_line_references,
    List.filterMap_filter, List.filter_filterMap]
  congr 1
  refine List.filterMap_congr fun r _ => ?_
  cases ho : (outgoingOf file (repositoryAliases text) r).answer view with
  | none => simp
  | some o =>
    obtain rfl := reference_of_answer_outgoingOf ho
    rw [Option.filter_some]

/-- A path, without the slashes that open it, in the checkout with a short name that lies beside a
repository. -/
def Path.beside (root : Path) (short path : String) : Path :=
  (((root.parent?.getD root).child short).child (String.ofList (dropSlashes path.toList))).normalize

theorem answer_resolveForeign (view : View) (path short : String) (file : Path) :
    (resolveForeign path.toList short file).answer view = (view.root file).beside short path := by
  rw [resolveForeign, answer_bind, answer_root, answer_pure, Path.beside]

/-- A reference with the alias of another repository ends in the checkout beside that of the file,
if the alias is declared, and at the alias otherwise. -/
theorem answer_outgoingOf_foreign {path name : String} (hpath : trim path.toList = path.toList)
    (hname : trim name.toList = name.toList) (hat : '@' ∉ name.toList) (hself : name ≠ selfAlias)
    (hruntime : Template.isRuntimeExpression (path ++ "@" ++ name).toList = false)
    (aliases : AliasTable) (number : Nat) :
    (outgoingOf file aliases ⟨path ++ "@" ++ name, number⟩).answer view =
      some ⟨⟨path ++ "@" ++ name, number⟩, some name, match aliases.find? name with
        | none => .unknownAlias name
        | some short =>
          if view.isFile ((view.root file).beside short path) then
            .file ((view.root file).beside short path) (some short)
          else .missing ((view.root file).beside short path) (some short)⟩ := by
  have hfollowed : (⟨path ++ "@" ++ name, number⟩ : TemplateReference).isRuntimeExpression =
      false := hruntime
  rw [answer_outgoingOf, hfollowed, answer_resolve_foreign hpath hname hat hself,
    foreignAlias?_append hname hat hself, if_neg Bool.false_ne_true, Option.map_some]
  cases aliases.find? name with
  | none => rfl
  | some short =>
    dsimp only
    rw [answer_targetOf_path, answer_resolveForeign]

namespace Workspace

/-- Whatever else a text holds, it declares the aliases of its repositories, each with the short
name that the last of its entries with a short name has. Whatever a workspace remembers of the
files: in a file with this text, a line that refers to a path with the alias of another repository
is found with the alias and, if the alias has a short name, with the path in the checkout of this
name beside the repository of the file as its target. If it has none, the target is unknown. -/
theorem resolves_declared_aliases (w : WrittenResources) (ended : Bool) :
    (∀ name short, (repositoryAliases (textOf w.lines ended)).find? name = some short ↔
      w.Names name short) ∧
      ∀ (ws : Workspace) (tree : FileTree) (file : Path),
        (ws.ask tree (Inquiry.text file)).1 = some (textOf w.lines ended) →
      ∀ (name path : String) (number column : Nat) (dashed : Bool),
        trim name.toList = name.toList → '@' ∉ name.toList → name ≠ selfAlias →
          trim path.toList = path.toList →
        w.lines[number]? = some (referenceLine column dashed (path ++ "@" ++ name)) →
        Template.isRuntimeExpression (path ++ "@" ++ name).toList = false →
      ∃ target, (ws.ask tree (outgoing? file)).1.map (List.filter (·.reference.line = number)) =
          some [⟨⟨path ++ "@" ++ name, number⟩, some name, target⟩] ∧
        (∀ short, w.Names name short →
          let beside := (ws.ask tree (Inquiry.root file)).1.beside short path
          target = if tree.isFile beside then
            .file beside (some short) else .missing beside (some short)) ∧
        ((∀ short, ¬ w.Names name short) → target = .unknownAlias name) := by
  refine ⟨fun name short => w.find?_repositoryAliases_iff ended name short, ?_⟩
  intro ws tree file htext name path number column dashed hname hat hself hpath hline hruntime
  have hview : (tree.viewOf ws.memory file).text file = some (textOf w.lines ended) := htext
  have hlines : (linesOf (textOf w.lines ended))[number]? =
      some (referenceLine column dashed (path ++ "@" ++ name)) := by
    obtain ⟨rest, -, hrest⟩ := exists_linesOf_textOf w.isOneLine_of_mem_lines ended
    obtain ⟨hnumber, -⟩ := List.getElem?_eq_some_iff.1 hline
    rw [hrest, List.getElem?_append_left hnumber, hline]
  have hne : path ++ "@" ++ name ≠ "" := by simp
  have hfound : (ws.ask tree (outgoing? file)).1.map (List.filter (·.reference.line = number)) =
      _ :=
    (congrArg _ (run_fst_of_file (asks_outgoing? rfl rfl))).trans
      (filter_line_answer_outgoing? hview number)
  rw [hlines, Option.bind_some, referenceOfLine?_referenceLine column dashed hne,
    Option.toList_some] at hfound
  simp only [List.filterMap_cons, answer_outgoingOf_foreign hpath hname hat hself hruntime,
    List.filterMap_nil]
    at hfound
  have hroot : (tree.viewOf ws.memory file).root file = (ws.ask tree (Inquiry.root file)).1 := rfl
  have hisFile : (tree.viewOf ws.memory file).isFile = tree.isFile := rfl
  refine ⟨_, hfound, fun short hshort => ?_, fun hnone => ?_⟩
  · simp only [(w.find?_repositoryAliases_iff ended name short).2 hshort, hroot, hisFile]
  · have hunknown : (repositoryAliases (textOf w.lines ended)).find? name = none :=
      Option.eq_none_iff_forall_ne_some.2 fun short hshort =>
        hnone short ((w.find?_repositoryAliases_iff ended name short).1 hshort)
    simp only [hunknown]

/-- A workspace that remembers no other text of it reads a file as the text that was written. -/
theorem ask_text_of_toUTF8 {ws : Workspace} {tree : FileTree}
    (hws : ws.memory.cache.Agrees (fun _ => True) tree) {place : Location} {stamp : Stamp}
    (hlocate : tree.locate file = .ok place)
    (hnode : tree.node? place = some (.file ⟨text.toUTF8, stamp⟩))
    (hmark : text.toList.head? ≠ some '\ufeff') : (ws.ask tree (Inquiry.text file)).1 = some text :=
  (hws.read_fst trivial).trans (FileTree.view_text_of_toUTF8 hlocate hnode hmark)

/-- Of two entries with one alias the later counts, an entry without a short name declares nothing,
and a path may leave the checkout again. -/
theorem resolves_references_of_three_entries :
    let other : RepositoryKey :=
      .other ⟨"type: git # t".toList,
        @IsOtherKey.of_word "type".toList " git # t".toList (by decide)
        (List.all_eq_true.1 (by decide)) (by decide) (by decide) (by decide)⟩
    let w : WrittenResources :=
      { before := ["- template: \x27../a.yml@x\x27".toList]
        siblings := []
        margin := 1
        column := 2
        entries :=
          [⟨⟨"x", by decide⟩, ⟨"P/o", by decide⟩, .repository,
            [.name], by decide, by simp, by simp⟩,
            ⟨⟨"y", by decide⟩, ⟨"P/ ", by decide⟩, .repository,
              [.name], by decide, by simp, by simp⟩,
            ⟨⟨"x", by decide⟩, ⟨"P/q ", by decide⟩, .name,
              [other, .repository], by decide, by simp, by simp⟩]
        after := ["- template: \x27b.yml@y\x27".toList]
        oneLine := by decide
        before_other := by decide
        siblings_under := by decide
        margin_pos := by decide
        margin_le := by decide
        after_outside := by decide }
    let text := textOf w.lines true
    let tree : FileTree :=
      .put (.makeDirectories {} ["p", "r"]) ["p", "r", "a.yml"] text.toUTF8 none
    let ws : Workspace := { root := ⟨"/p"⟩, options := {}, reader := .ofRules }
    let found := fun number =>
      (ws.ask tree (outgoing? ⟨"/p/r/a.yml"⟩)).1.map (List.filter (·.reference.line = number))
    (ws.ask tree (Inquiry.text ⟨"/p/r/a.yml"⟩)).1 = some text ∧
      w.lines[0]? = some (referenceLine 0 true ("../a.yml" ++ "@" ++ "x")) ∧
      w.lines[10]? = some (referenceLine 0 true ("b.yml" ++ "@" ++ "y")) ∧
      found 0 = some [⟨⟨"../a.yml@x", 0⟩, some "x", .missing ⟨"/p/a.yml"⟩ (some "q")⟩] ∧
      found 10 = some [⟨⟨"b.yml@y", 10⟩, some "y", .unknownAlias "y"⟩] := by
  intro other w text tree ws found
  have htext : (ws.ask tree (Inquiry.text ⟨"/p/r/a.yml"⟩)).1 = some text := by
    obtain ⟨_, hnode⟩ : ∃ stamp, tree.node? ["p", "r", "a.yml"] =
        some (.file ⟨text.toUTF8, stamp⟩) :=
      FileTree.node?_put_self (by simp) _ _
    have hmark : text.toList.head? ≠ some '\ufeff' := by
      dsimp only [text]
      rw [textOf, String.toList_ofList]
      decide
    exact ask_text_of_toUTF8 (Cache.agrees_empty _ tree) (by rfl) hnode hmark
  have hx : w.lines[0]? = some (referenceLine 0 true ("../a.yml" ++ "@" ++ "x")) := by
    decide +kernel
  have hy : w.lines[10]? = some (referenceLine 0 true ("b.yml" ++ "@" ++ "y")) := by
    decide +kernel
  obtain ⟨-, hresolves⟩ := resolves_declared_aliases w true
  obtain ⟨target, hfound, hmapped, -⟩ :=
    hresolves ws tree _ htext "x" "../a.yml" 0 0 true (by decide) (by decide)
    (by decide) (by decide) hx (by decide)
  obtain ⟨target', hfound', -, hunknown⟩ :=
    hresolves ws tree _ htext "y" "b.yml" 10 0 true (by decide) (by decide)
    (by decide) (by decide) hy (by decide)
  have hnames : w.Names "x" "q" := 
    ⟨w.entries.take 2, w.entries[2], [], rfl, rfl, by decide +kernel, List.forall_mem_nil _⟩
  have hnone : ∀ e ∈ w.entries, e.aliasName.1 = "y" → e.shortName? = none := by
    decide +kernel
  have hbeside : (ws.ask tree (Inquiry.root ⟨"/p/r/a.yml"⟩)).1.beside "q" "../a.yml" =
      ⟨"/p/a.yml"⟩ := by
    have heta : ∀ p : Path, p.text = "/p/a.yml" → p = ⟨"/p/a.yml"⟩ := fun p h => congrArg Path.mk h
    exact heta _ (by decide +kernel)
  have habsent : tree.isFile ⟨"/p/a.yml"⟩ = false := by
    decide +kernel
  have hmissing : target = .missing ⟨"/p/a.yml"⟩ (some "q") := by
    rw [hmapped "q" hnames, hbeside, habsent]
    rfl
  have hnowhere : target' = .unknownAlias "y" := by
    refine hunknown ?_
    rintro short ⟨front, e, back, hsplit, hname, hshort, -⟩
    rw [hnone e (by simp [hsplit]) hname] at hshort
    cases hshort
  rw [hmissing] at hfound
  rw [hnowhere] at hfound'
  exact ⟨htext, hx, hy, hfound, hfound'⟩

end Workspace

end TemplateAtlas
