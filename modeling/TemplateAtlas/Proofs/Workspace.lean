import TemplateAtlas.Corpus.Ignore
import TemplateAtlas.Proofs.Corpus.Files
import TemplateAtlas.Proofs.Files.Write
import TemplateAtlas.Proofs.Graph.Duality
import TemplateAtlas.Proofs.Index.Consistency
import TemplateAtlas.Workspace

/-!
# Workspaces

The root of a workspace is an address, so its corpus is a strictly ascending list of addresses. The
tree of a file shows what chains of references reach (`mem_keys_templateTree_iff`). A build from a
fresh workspace is published and reports the corpus, and the tree of callers that the index then
shows is the one that reading the corpus shows (`callerTree_buildIndex`). The tree of callers of a
path shows a file of the corpus, if and only if the tree of that file shows the path, as far as the
corpus goes (`callerTree_dual_templateTree`).
-/

namespace TemplateAtlas

open Std Inquiry

/-! ### Roots -/

theorem FileTree.isAbsolute_workingPath (tree : FileTree) : tree.workingPath.isAbsolute = true := by
  rw [FileTree.workingPath, Path.isAbsolute, Path.bytes_ofSteps_root]
  rfl

/-- A path that is read in an absolute directory becomes an address. -/
theorem Path.isAddress_absolutize {working : Path} (h : working.isAbsolute = true) (p : Path) :
    (p.absolutize working).IsAddress := by
  unfold absolutize
  split
  next hp => exact isAddress_normalize hp
  next => exact isAddress_normalize (isAbsolute_join h p)

namespace Index

/-- A build whose number is still the latest is published, after the queued changes. -/
theorem answer_endBuild {index : Index} {number : Nat} (h : index.started = number) (view : View)
    (built : Snapshot) :
    (index.endBuild number built).answer view =
      (true, { index with
        snapshot := (applyAll index.pending built).answer view
        ready := true, completed := number, pending := [] }) := by
  rw [endBuild, h, bne_self_eq_false, if_neg (by decide), answer_bind, answer_pure]

theorem asks_applyNow {texts roots : Path → Prop} {change : FileChange}
    (h : change.kind ≠ .deleted → texts change.path ∧ roots change.path) (s : Snapshot) :
    (applyNow change s).Asks texts roots := by
  have hreads : change.kind ≠ .deleted →
      (do return s.setForward change.path (← indexReferences change.path) :
        Inquiry Snapshot).Asks texts roots :=
    fun hkind => (asks_indexReferences (h hkind).1 (h hkind).2).bind fun _ => asks_pure _
  unfold applyNow
  cases hkind : change.kind with
  | deleted => exact asks_pure _
  | changed => exact hreads (by simp [hkind])
  | created => exact hreads (by simp [hkind])

theorem asks_applyAll {texts roots : Path → Prop} {queue : List FileChange}
    (h : ∀ change ∈ queue, change.kind ≠ .deleted → texts change.path ∧ roots change.path)
    (s : Snapshot) : (applyAll queue s).Asks texts roots := by
  induction queue generalizing s with
  | nil => exact asks_pure _
  | cons change queue ih =>
    exact (asks_applyNow (h change (by simp)) s).bind fun s' =>
      ih (fun c hc => h c (by simp [hc])) s'

theorem asks_apply {texts roots : Path → Prop} {change : FileChange}
    (h : texts change.path ∧ roots change.path) (index : Index) :
    (index.apply change).Asks texts roots := by
  rw [apply_eq]
  split
  · exact (asks_applyNow (fun _ => h) _).bind fun _ => asks_pure _
  · exact asks_pure _

end Index

theorem asks_indexFiles {texts roots : Path → Prop} {files : List Path}
    (h : ∀ p ∈ files, texts p ∧ roots p) : (indexFiles files).Asks texts roots :=
  (Asks.each fun file hmem => (asks_indexReferences (h file hmem).1 (h file hmem).2).bind fun _ =>
    asks_pure _).bind fun _ => asks_pure _

namespace Workspace

variable {tree : FileTree} {ws : Workspace}

theorem isAddress_root_new (reader : IgnoreReader) (tree : FileTree) (root : Path)
    (options : CorpusOptions) : (new reader tree root options).root.IsAddress :=
  Path.isAddress_absolutize tree.isAbsolute_workingPath root

/-- A request names a file in normal form, however it is spelled. -/
theorem isNormal_resolveFile (ws : Workspace) (tree : FileTree) (p : Path) :
    (ws.resolveFile tree p).IsNormal := by
  unfold resolveFile
  by_cases hp : p.isAbsolute = true
  · rw [if_pos hp]
    exact Path.isNormal_normalize p
  · rw [if_neg hp]
    dsimp only
    split
    · exact (Path.isAddress_absolutize tree.isAbsolute_workingPath p).isNormal
    · exact Path.isNormal_normalize _

/-! ### Builds -/

section Builds

variable {texts roots : Path → Prop}

theorem endBuild_eq (ws : Workspace) (tree : FileTree) (number : Nat) (files : List Path) :
    ws.endBuild tree number files =
      ((((ws.index.finish number files).run tree ws.memory).1).1, { ws with
        memory := ((ws.index.finish number files).run tree ws.memory).2
        index := (((ws.index.finish number files).run tree ws.memory).1).2 }) :=
  rfl

/-- The end of the latest build publishes what the files and the queue say. -/
theorem endBuild_latest (hmemory : ws.memory.Agrees texts roots tree)
    (hnormal : ∀ p, roots p → p.IsNormal) {files : List Path}
    (hfiles : ∀ p ∈ files, texts p ∧ roots p)
    (hpending : ∀ change ∈ ws.index.pending, change.kind ≠ .deleted → texts change.path ∧
      roots change.path) :
    ∃ memory : Memory, memory.Agrees texts roots tree ∧
      ws.endBuild tree ws.index.started files = (true, { ws with
        memory := memory
        index := { ws.index with
          snapshot :=
            (Index.applyAll ws.index.pending ((indexFiles files).answer tree.view)).answer tree.view
          ready := true, completed := ws.index.started, pending := [] } }) := by
  have hasks : (ws.index.finish ws.index.started files).Asks texts roots := by
    refine (asks_indexFiles hfiles).bind fun built => ?_
    unfold Index.endBuild
    split
    · exact asks_pure _
    · exact (Index.asks_applyAll hpending built).bind fun _ => asks_pure _
  refine ⟨_, hmemory.run_snd hnormal (hasks.mono (fun _ _ => trivial) hnormal), ?_⟩
  rw [endBuild_eq, hmemory.run_fst hnormal hasks, Index.finish, answer_bind,
    Index.answer_endBuild rfl]

/-- The end of any other build publishes nothing. -/
theorem endBuild_superseded (hmemory : ws.memory.Agrees texts roots tree)
    (hnormal : ∀ p, roots p → p.IsNormal) {files : List Path} (hfiles : ∀ p ∈ files, p.IsNormal)
    {number : Nat} (hnumber : ws.index.started ≠ number) :
    ∃ memory : Memory, memory.Agrees texts roots tree ∧
      ws.endBuild tree number files = (false, { ws with memory := memory }) := by
  have hasks : (indexFiles files).Asks (fun _ => True) Path.IsNormal :=
    asks_indexFiles fun p hp => ⟨trivial, hfiles p hp⟩
  refine ⟨_, hmemory.run_snd hnormal hasks, ?_⟩
  rw [endBuild_eq, Index.finish, run_bind, Index.endBuild, if_pos (bne_iff_ne.2 hnumber), run_pure]

theorem isAddress_of_mem_corpus (h : tree.WellFormed) (hroot : ws.root.IsAddress) {p : Path}
    (hp : p ∈ ws.corpus tree) : p.IsAddress :=
  CorpusOptions.isAddress_of_mem_files h hroot hp

/-- A build without a queue publishes what the files of the corpus say. -/
theorem buildIndex_eq (h : tree.WellFormed) (hroot : ws.root.IsAddress)
    (hmemory : ws.memory.Agrees (fun _ => True) Path.IsNormal tree)
    (hpending : ws.index.pending = []) :
    ∃ memory : Memory, memory.Agrees (fun _ => True) Path.IsNormal tree ∧
      ws.buildIndex tree = (true, { ws with
        memory := memory
        index := {
          snapshot := (indexFiles (ws.corpus tree)).answer tree.view
          ready := true, started := ws.index.started + 1, completed := ws.index.started + 1,
          pending := [] } }) := by
  have hcorpus : ∀ p ∈ ws.corpus tree, True ∧ p.IsNormal := fun p hp =>
    ⟨trivial, (isAddress_of_mem_corpus h hroot hp).isNormal⟩
  have hqueue : ws.beginBuild.1.index.pending = [] := hpending
  obtain ⟨memory, hagrees, hbuild⟩ :=
    @endBuild_latest tree ws.beginBuild.1 _ _ hmemory (fun _ hp => hp)
    (ws.corpus tree) hcorpus (fun change hmem => by rw [hqueue] at hmem; cases hmem)
  refine ⟨memory, hagrees, ?_⟩
  rw [hqueue] at hbuild
  exact hbuild

theorem indexChange_eq_run (ws : Workspace) (tree : FileTree) (change : FileChange) :
    ws.indexChange tree change = { ws with
      memory := ((ws.index.apply change).run tree (ws.forget change.path).memory).2
      index := ((ws.index.apply change).run tree (ws.forget change.path).memory).1 } :=
  rfl

/-- A change alters the snapshot and the queue alone. -/
theorem index_indexChange (ws : Workspace) (tree : FileTree) (change : FileChange) :
    ∃ snapshot, (ws.indexChange tree change).index =
      { ws.index with snapshot := snapshot, pending := ws.index.queued change } := by
  have hyields : (ws.index.apply change).Yields fun index =>
      ∃ snapshot, index =
        { ws.index with snapshot := snapshot, pending := ws.index.queued change } := by
    rw [Index.apply_eq]
    split
    · exact (yields_true _).bind fun snapshot _ => ⟨snapshot, rfl⟩
    · exact ⟨ws.index.snapshot, rfl⟩
  exact hyields.run_fst tree _

/-- A change arrives at the index: it is queued while a build is under way, and made as soon as
there is a snapshot. -/
theorem indexChange_eq {change : FileChange}
    (hmemory : (ws.forget change.path).memory.Agrees texts roots tree)
    (hnormal : ∀ p, roots p → p.IsNormal) (hpath : texts change.path ∧ roots change.path) :
    ∃ memory : Memory, memory.Agrees texts roots tree ∧
      ws.indexChange tree change = { ws with
        memory := memory
        index := { ws.index with
          snapshot := if ws.index.ready then
            (Index.applyNow change ws.index.snapshot).answer tree.view
            else ws.index.snapshot
          pending := ws.index.queued change } } := by
  have hasks := Index.asks_apply hpath ws.index
  refine ⟨_, hmemory.run_snd hnormal (hasks.mono (fun _ _ => trivial) hnormal), ?_⟩
  rw [indexChange_eq_run, hmemory.run_fst hnormal hasks, Index.apply_eq]
  split
  · rw [answer_bind]
    rfl
  · rfl

end Builds

/-! ### The tree of templates -/

section Templates

variable {file : Path}

/-- The nodes to which the references of a file lead, as the workspace finds them. -/
def referredNodes (ws : Workspace) (tree : FileTree) (file : Path) : List NodeKey :=
  (ws.ask tree (outgoing file)).1.map Outgoing.key

theorem leadsToNormal_referredNodes (ws : Workspace) (tree : FileTree) :
    LeadsToNormal (ws.referredNodes tree) :=
  fun file _ hmem => isNormal_of_mem_keys ((yields_outgoing file).run_fst tree ws.memory) hmem

theorem ask_outgoing_of_view {view : View} (hview : view.SameFiles tree)
    (hcache : ws.memory.cache.Agrees (fun _ => True) tree)
    (hroot : view.root file = (ws.memory.roots.root tree file).1) :
    (ws.ask tree (outgoing file)).1 = (outgoing file).answer view :=
  run_fst_of_root hview hcache (asks_outgoing trivial rfl) hroot

/-- After a walk down from a file, the references of the file are those that the walk followed. -/
theorem ask_outgoing_walkDown {memory : Memory} (hmemory : memory.cache.Agrees (fun _ => True) tree)
    (above : List Path) (depth : Nat) (line? : Option Nat) (alias? : Option String)
    (hws : ws.memory = ((walkDown above (depth + 1) file line? alias?).run tree memory).2) :
    (ws.ask tree (outgoing file)).1 =
      (outgoing file).answer (tree.viewWith ws.memory.roots Path.normalize) := by
  have hcache : ws.memory.cache.Agrees (fun _ => True) tree := hws ▸ cache_run_agrees hmemory _
  cases hfind : ws.memory.roots.find? file.directory with
  | some found =>
    refine ask_outgoing_of_view (tree.sameFiles_viewWith _ _) hcache ?_
    rw [FileTree.root_viewWith_of_eq_some hfind, RootMemo.root, hfind]
  | none =>
    -- no root of the file is remembered, so none was asked for, and any will do
    let known : View := { tree.view with root := fun _ => (ws.memory.roots.root tree file).1 }
    have hknown : known.SameFiles tree := ⟨fun _ => rfl, fun _ => rfl⟩
    obtain ⟨first, hfirst, hkept⟩ := exists_run_outgoing hmemory above depth file line? alias?
    have hunasked : ∀ view : View, view.SameFiles tree →
        ((outgoing file).run tree first).1 = (outgoing file).answer view := by
      intro view hview
      refine run_fst_of_roots hview hfirst (asks_outgoing trivial rfl) ?_
      rintro p rfl found hfound
      rw [hws, hkept _ _ hfound] at hfind
      cases hfind
    rw [ask_outgoing_of_view hknown hcache rfl, ← hunasked known hknown,
      ← hunasked _ (tree.sameFiles_viewWith ws.memory.roots _)]

/-- The tree of a file is what anyone would see who remembers the roots that are then found. -/
theorem templateTree_fst (h : ws.memory.cache.Agrees (fun _ => True) tree) (file : Path)
    (depth : Nat) :
    (ws.templateTree tree file depth).1 = (TemplateAtlas.templateTree file depth).answer
      (tree.viewWith (ws.templateTree tree file depth).2.memory.roots Path.normalize) :=
  run_fst_eq_viewWith h _ fun _ _ hfind => hfind

/-- After the tree of a file, the references of the file, and of files in normal form, are those
that the tree shows. -/
theorem ask_outgoing_templateTree (h : ws.memory.cache.Agrees (fun _ => True) tree) (file : Path)
    (depth : Nat) : let asked := (ws.templateTree tree file depth).2
    ∀ other : Path, other = file ∨ other.IsNormal →
      (asked.ask tree (outgoing other)).1 =
        (outgoing other).answer (tree.viewWith asked.memory.roots Path.normalize) := by
  intro asked other hother
  have hcache : asked.memory.cache.Agrees (fun _ => True) tree := cache_run_agrees h _
  rcases hother with rfl | hother
  · obtain ⟨d, hd⟩ : ∃ d, clampDepth depth = d + 1 :=
      ⟨clampDepth depth - 1, by unfold clampDepth; omega⟩
    refine ask_outgoing_walkDown h [] d none none ?_
    rw [← hd]
    rfl
  · exact ask_outgoing_of_view (tree.sameFiles_viewWith _ _) hcache
      (FileTree.root_viewWith_of_isNormal hother)

theorem referredNodes_templateTree (h : ws.memory.cache.Agrees (fun _ => True) tree) (file : Path)
    (depth : Nat) : let asked := (ws.templateTree tree file depth).2
    ∀ other : Path, other = file ∨ other.IsNormal →
      asked.referredNodes tree other =
        TemplateAtlas.referredNodes (tree.viewWith asked.memory.roots Path.normalize) other :=
  fun other hother => congrArg (List.map Outgoing.key)
    (ask_outgoing_templateTree h file depth other hother)

/-- After the tree of a file in normal form, the references of files in normal form are those that
the files show. -/
theorem ask_outgoing_templateTree_of_isNormal
    (h : ws.memory.Agrees (fun _ => True) Path.IsNormal tree) (hfile : file.IsNormal) (depth : Nat)
    {other : Path} (hother : other.IsNormal) :
    ((ws.templateTree tree file depth).2.ask tree (outgoing other)).1 =
      (outgoing other).answer tree.view := by
  have hagrees : (ws.templateTree tree file depth).2.memory.Agrees
      (fun _ => True) Path.IsNormal tree :=
    h.run_snd (fun _ hp => hp) (asks_templateTree hfile depth)
  exact ask_outgoing_of_view ⟨fun _ => rfl, fun _ => rfl⟩ hagrees.cache
    (hagrees.roots.root_fst hother).symm

/-- For all files, roots, options, requested files and depths: the tree of a file shows a node, if
and only if a chain of at most so many references leads there from the file. The references are
those that the workspace then finds, and for a file in normal form those that the files themselves
show. -/
theorem mem_keys_templateTree_iff (reader : IgnoreReader) (tree : FileTree) (root : Path)
    (options : CorpusOptions) (file : Path) (depth : Nat) (key : NodeKey) :
    let asked := (new reader tree root options).templateTree tree file depth
    (key ∈ asked.1.keys ↔ ∃ n ≤ clampDepth depth,
      Chain (asked.2.referredNodes tree) n (.file file) key) ∧
      (file.IsNormal → ∀ other : Path, other.IsNormal →
        asked.2.referredNodes tree other = TemplateAtlas.referredNodes tree.view other) := by
  intro asked
  have hempty : (new reader tree root options).memory.Agrees (fun _ => True) Path.IsNormal tree :=
    Memory.agrees_empty _ _ tree
  refine ⟨?_, fun hfile other hother => ?_⟩
  · have hrefs := referredNodes_templateTree hempty.cache file depth
    rw [templateTree_fst hempty.cache, TemplateAtlas.templateTree,
      mem_keys_walkDown_iff (spelledAlike_viewWith tree _ file)]
    constructor
    · rintro ⟨n, hn, hchain⟩
      exact ⟨n, hn, hchain.congr (TemplateAtlas.leadsToNormal_referredNodes _)
        (fun other hother => (hrefs other (.inr hother)).symm) (hrefs file (.inl rfl)).symm⟩
    · rintro ⟨n, hn, hchain⟩
      exact ⟨n, hn, hchain.congr (leadsToNormal_referredNodes asked.2 tree)
        (fun other hother => hrefs other (.inr hother)) (hrefs file (.inl rfl))⟩
  · exact congrArg (List.map Outgoing.key)
      (ask_outgoing_templateTree_of_isNormal hempty hfile depth hother)

end Templates

/-! ### The tree of callers -/

theorem callerTree_of_ready (hready : ws.index.ready = true)
    (hmemory : ws.memory.Agrees (fun _ => True) Path.IsNormal tree) (file : Path) (depth : Nat) :
    (ws.callerTree tree file depth).1 =
      (callerTreeBy ws.index.snapshot.callersWithSites file depth).answer tree.view := by
  rw [callerTree, if_pos hready]
  exact hmemory.run_fst (fun _ hp => hp) (asks_callerTreeBy _ file depth)

theorem callerTree_of_not_ready (hready : ws.index.ready = false)
    (hmemory : ws.memory.Agrees (fun _ => True) Path.IsNormal tree)
    (hcorpus : ∀ p ∈ ws.corpus tree, p.IsNormal) (file : Path) (depth : Nat) :
    (ws.callerTree tree file depth).1 =
      (callerTreeByScan (ws.corpus tree) file depth).answer tree.view := by
  rw [callerTree, hready, if_neg (by decide)]
  exact hmemory.run_fst (fun _ hp => hp) (asks_callerTreeByScan hcorpus file depth)

/-- Before and after the build of a fresh workspace, the tree of callers is the one that reading the
corpus finds. -/
theorem callerTree_eq_scan (h : tree.WellFormed) (reader : IgnoreReader) (root : Path)
    (options : CorpusOptions) (file : Path) (depth : Nat) : let ws := new reader tree root options
    ∀ shown ∈ [(ws.callerTree tree file depth).1,
      ((ws.buildIndex tree).2.callerTree tree file depth).1],
      shown = (callerTreeByScan (ws.corpus tree) file depth).answer tree.view := by
  intro ws
  have hroot : ws.root.IsAddress := isAddress_root_new reader tree root options
  have hcorpus : ∀ p ∈ ws.corpus tree, p.IsNormal :=
    fun p hp => (isAddress_of_mem_corpus h hroot hp).isNormal
  have hempty : ws.memory.Agrees (fun _ => True) Path.IsNormal tree := Memory.agrees_empty _ _ tree
  obtain ⟨memory, hmemory, hbuild⟩ := buildIndex_eq h hroot hempty rfl
  have hsites := (Snapshot.reports_indexFiles hcorpus tree.view).callersWithSites_eq hcorpus
    (CorpusOptions.pairwise_files h hroot)
  simp only [List.forall_mem_cons, List.not_mem_nil, false_implies, implies_true, and_true]
  constructor
  · exact callerTree_of_not_ready rfl hempty hcorpus file depth
  · rw [hbuild, callerTree_of_ready rfl hmemory, answer_callerTreeByScan]
    exact congrArg (fun sites => (callerTreeBy sites file depth).answer tree.view) (funext hsites)

/-- For all files, roots, options, requested files and depths: the build of a fresh workspace is
published, and the tree of callers that the index then shows is the one that reading the whole
corpus shows. -/
theorem callerTree_buildIndex (h : tree.WellFormed) (reader : IgnoreReader) (root : Path)
    (options : CorpusOptions) (file : Path) (depth : Nat) : let ws := new reader tree root options
    (ws.buildIndex tree).1 = true ∧ (ws.buildIndex tree).2.index.ready = true ∧
      ((ws.buildIndex tree).2.callerTree tree file depth).1 =
        (ws.callerTree tree file depth).1 := by
  intro ws
  have hempty : ws.memory.Agrees (fun _ => True) Path.IsNormal tree := Memory.agrees_empty _ _ tree
  obtain ⟨memory, -, hbuild⟩ :=
    buildIndex_eq h (isAddress_root_new reader tree root options) hempty rfl
  have hready : (ws.buildIndex tree).1 = true ∧ (ws.buildIndex tree).2.index.ready = true := by
    rw [hbuild]
    exact ⟨rfl, rfl⟩
  have hscan := callerTree_eq_scan h reader root options file depth
  have hbefore := hscan _ List.mem_cons_self
  have hafter := hscan _ (List.mem_cons_of_mem _ List.mem_cons_self)
  exact ⟨hready.1, hready.2, hafter.trans hbefore.symm⟩

theorem callerTree_buildIndex_of_write :
    ∃ tree, FileTree.write {} ⟨"/a.yml"⟩ "- template: a.yml".toUTF8 none = .ok tree ∧
      tree.WellFormed ∧
      ((new .ofRules tree ⟨"/"⟩ {}).buildIndex tree).2.index.ready = true ∧
      (((new .ofRules tree ⟨"/"⟩ {}).buildIndex tree).2.callerTree tree ⟨"/a.yml"⟩ 3).1 =
        ((new .ofRules tree ⟨"/"⟩ {}).callerTree tree ⟨"/a.yml"⟩ 3).1 := by
  have hwrite : FileTree.write {} ⟨"/a.yml"⟩ "- template: a.yml".toUTF8 none = .ok _ := rfl
  obtain ⟨hwritable, hput⟩ := FileTree.write_eq_ok (by decide) hwrite
  have h := FileTree.wellFormed_empty.put hwritable "- template: a.yml".toUTF8 none
  exact ⟨_, hwrite, hput ▸ h, (callerTree_buildIndex (hput ▸ h) .ofRules ⟨"/"⟩ {} ⟨"/a.yml"⟩ 3).2⟩

/-! ### Callers and references -/

theorem isFile_of_isSome_text (tree : FileTree) (p : Path) (h : (tree.view.text p).isSome) :
    tree.view.isFile p = true := by
  simp only [FileTree.view, Option.isSome_bind, FileTree.isFile] at h ⊢
  cases hfile : tree.fileAt? p with
  | none => simp [hfile] at h
  | some v => rfl

/-- For all files, roots and options, every file `b` of the corpus, path `a` and depth, with an
index and without: if the tree of callers of `a` shows `b`, then the tree of `b` shows `a`. The
converse holds if the files that `b` reaches belong to the corpus. Nothing need be at `a`. -/
theorem callerTree_dual_templateTree (h : tree.WellFormed) (reader : IgnoreReader) (root : Path)
    (options : CorpusOptions) {b : Path} (hb : b ∈ (new reader tree root options).corpus tree)
    (a : Path) (depth : Nat) : let ws := new reader tree root options
    let down := (ws.templateTree tree b depth).1
    ∀ up ∈ [(ws.callerTree tree a depth).1, ((ws.buildIndex tree).2.callerTree tree a depth).1],
      (up.containsPath b = true → down.containsPath a = true) ∧
        ((∀ n c, Chain (TemplateAtlas.referredNodes tree.view) n (.file b) (.file c) →
          c ∈ ws.corpus tree) →
          down.containsPath a = true → up.containsPath b = true) := by
  intro ws down up hup
  have hroot : ws.root.IsAddress := isAddress_root_new reader tree root options
  have hcorpus : ∀ p ∈ ws.corpus tree, p.IsNormal :=
    fun p hp => (isAddress_of_mem_corpus h hroot hp).isNormal
  have hempty : ws.memory.Agrees (fun _ => True) Path.IsNormal tree := Memory.agrees_empty _ _ tree
  have hdown : down = (TemplateAtlas.templateTree b depth).answer tree.view :=
    hempty.run_fst (fun _ hp => hp) (asks_templateTree (hcorpus b hb) depth)
  rw [callerTree_eq_scan h reader root options a depth up hup, hdown]
  exact containsPath_dual (isFile_of_isSome_text tree) hcorpus hb a depth

/-- A file refers to one that is missing, and is found from there. -/
theorem callerTree_dual_of_missing :
    let tree : FileTree := .put {} ["a.yml"] "- template: b.yml".toUTF8 none
    let ws := new .ofRules tree ⟨"/"⟩ { respectIgnore := false }
    tree.WellFormed ∧ Path.address ["a.yml"] ∈ ws.corpus tree ∧
      (ws.templateTree tree (.address ["a.yml"]) 1).1.containsPath ⟨"/b.yml"⟩ = true ∧
      ∀ up ∈ [(ws.callerTree tree ⟨"/b.yml"⟩ 1).1,
        ((ws.buildIndex tree).2.callerTree tree ⟨"/b.yml"⟩ 1).1],
        up.containsPath (.address ["a.yml"]) = true := by
  intro tree ws
  have h : tree.WellFormed := by decide +kernel
  have htop : IsPlace [] := by decide
  have hb : Path.address ["a.yml"] ∈ ws.corpus tree :=
    (CorpusOptions.mem_files_iff h htop rfl).2 ⟨by decide, ["a.yml"], _, rfl,
      rfl, by decide +kernel⟩
  have hdown : (ws.templateTree tree (.address ["a.yml"]) 1).1.containsPath ⟨"/b.yml"⟩ = true := by
    decide +kernel
  have hrefs : TemplateAtlas.referredNodes tree.view (.address ["a.yml"]) =
      [.missing ⟨"/b.yml"⟩] := by rfl
  refine ⟨h, hb, hdown, fun up hup => ?_⟩
  refine (callerTree_dual_templateTree h .ofRules ⟨"/"⟩ { respectIgnore := false } hb
    ⟨"/b.yml"⟩ 1 up hup).2 ?_ hdown
  -- the missing file is all that the file reaches
  rintro n c (_ | ⟨hnext, hchain⟩)
  · exact hb
  · rw [hrefs, List.mem_singleton] at hnext
    subst hnext
    cases hchain

end Workspace

end TemplateAtlas
