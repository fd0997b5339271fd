import TemplateAtlas.Proofs.Corpus.Change
import TemplateAtlas.Proofs.Index.Accounts

/-!
# Keeping the index up to date

A situation is a file tree with a workspace on it and the builds under way. In any order, files are
written and removed and each change arrives at the workspace, the workspace is asked, builds begin
and end, and the index is cleared (`Step`). The workspace keeps track (`Tracks`): what it remembers
agrees with the files, and the queue accounts for what the latest build has not seen.

An index that is ready is up to date after every step, if and only if no publication of the run has
stranded a file (`upToDate_iff_none_stranded`).
-/

namespace TemplateAtlas

open Inquiry

namespace Workspace

/-- The workspace as it would be opened again. -/
def reopened (ws : Workspace) : Workspace :=
  { root := ws.root, options := ws.options, reader := ws.reader }

/-- A workspace that is opened again builds an index that reports the corpus. -/
theorem reports_reopened {tree : FileTree} (ws : Workspace) (h : tree.WellFormed)
    (hroot : ws.root.IsAddress) :
    (ws.reopened.buildIndex tree).2.index.snapshot.Reports tree.view (· ∈ ws.corpus tree) := by
  have hempty : ws.reopened.memory.Agrees (fun _ => True) Path.IsNormal tree :=
    Memory.agrees_empty _ _ tree
  obtain ⟨memory, -, hbuild⟩ := @buildIndex_eq tree ws.reopened h hroot hempty rfl
  rw [hbuild]
  exact Snapshot.reports_indexFiles
    (fun p hp => (isAddress_of_mem_corpus h hroot hp).isNormal) tree.view

end Workspace

/-- The files, a workspace, the builds under way, and all that has been published. -/
structure Situation where
  /-- The files. -/
  tree : FileTree
  /-- The workspace. -/
  workspace : Workspace
  /-- The builds under way. -/
  builds : List OpenBuild := []
  /-- What the index has been published from. -/
  published : List Publication := []

namespace Situation

/-- A workspace has just been opened. -/
def opened (reader : IgnoreReader) (tree : FileTree) (root : Path) (options : CorpusOptions) :
    Situation where
  tree := tree
  workspace := .new reader tree root options

/-- A change has made the files what they are now, and arrives at the workspace. -/
def change (s : Situation) (tree : FileTree) (change : FileChange) : Situation :=
  { s with tree := tree, workspace := s.workspace.applyChange tree change }

/-- A build takes a number and lists the files. -/
def beginBuild (s : Situation) : Situation :=
  { s with
    workspace := s.workspace.beginBuild.1
    builds := ⟨s.workspace.beginBuild.2, s.workspace.corpus s.tree⟩ :: s.builds }

/-- A build reads the files that it has listed and ends, while others are still under way. -/
def endBuild (s : Situation) (build : OpenBuild) (others : List OpenBuild) : Situation :=
  let (published, workspace) := s.workspace.endBuild s.tree build.number build.files
  { s with
    workspace := workspace
    builds := others
    published := if published then ⟨s.workspace.index.pending, build.files⟩ ::
      s.published else s.published }

/-- What happens, one step after another. A build of the index is its beginning and its end with any
steps in between. The directories that hold the marker of a repository stay the same, and questions
name files in normal form, as requests do (`Workspace.isNormal_resolveFile`). -/
inductive Step : Situation → Situation → Prop where
  /-- A file is written, or a file or directory removed, and the change arrives. -/
  | change {s : Situation} {change : FileChange} {tree : FileTree} :
    change.Happens s.tree tree → s.tree.SameRepositories tree → Step s (s.change tree change)
  /-- Directories are made. -/
  | makeDirectories {s : Situation} {place : Location} :
    s.tree.Enterable place → s.tree.SameRepositories (s.tree.makeDirectories place) →
      Step s { s with tree := s.tree.makeDirectories place }
  /-- The workspace is asked something. -/
  | ask {s : Situation} {α : Type} {inquiry : Inquiry α} :
    inquiry.Asks (fun _ => True) Path.IsNormal →
      Step s { s with workspace := (s.workspace.ask s.tree inquiry).2 }
  /-- The index is cleared. -/
  | clear {s : Situation} : Step s { s with workspace := s.workspace.clearIndex }
  /-- A build begins. -/
  | beginBuild {s : Situation} : Step s s.beginBuild
  /-- A build ends. -/
  | endBuild {s : Situation} {before after : List OpenBuild} {build : OpenBuild} :
    s.builds = before ++ build :: after → Step s (s.endBuild build (before ++ after))

/-- The index serves the files of the corpus, with the references and callers that a fresh workspace
would find. -/
def UpToDate (s : Situation) : Prop :=
  s.workspace.index.snapshot.files.toList = s.workspace.corpus s.tree ∧
    s.workspace.index.snapshot = (s.workspace.reopened.buildIndex s.tree).2.index.snapshot

/-! ### The invariant -/

/-- What the workspace remembers agrees with the files, and the queue accounts for what the builds
have not seen. -/
structure Tracks (s : Situation) : Prop where
  /-- The files are well-formed. -/
  wellFormed : s.tree.WellFormed
  /-- The root is an address. -/
  root : s.workspace.root.IsAddress
  /-- No ignore file counts. -/
  ignore : s.workspace.options.respectIgnore = false
  /-- The memory agrees with the files. -/
  memory : s.workspace.memory.Agrees Path.IsAddress Path.IsAddress s.tree
  /-- The queue accounts for the corpus. -/
  accounts : s.workspace.index.Accounts s.builds (· ∈ s.workspace.corpus s.tree)

/-- An index that is ready reports the corpus. -/
def Serves (s : Situation) : Prop :=
  s.workspace.index.ready = true →
    s.workspace.index.snapshot.Reports s.tree.view (· ∈ s.workspace.corpus s.tree)

variable {s s' : Situation}

theorem Tracks.isAddress (h : s.Tracks) {p : Path} (hp : p ∈ s.workspace.corpus s.tree) :
    p.IsAddress :=
  Workspace.isAddress_of_mem_corpus h.wellFormed h.root hp

theorem tracks_opened {tree : FileTree} (h : tree.WellFormed) (reader : IgnoreReader) (root : Path)
    {options : CorpusOptions} (hignore : options.respectIgnore = false) :
    (opened reader tree root options).Tracks where
  wellFormed := h
  root := Workspace.isAddress_root_new reader tree root options
  ignore := hignore
  memory := Memory.agrees_empty _ _ tree
  accounts := ⟨Nat.le_refl _, fun _ => rfl, fun c hc => (by cases hc),
    fun q _ found hfound => (by cases hfound),
    List.nodup_nil, fun b hb => (by cases hb), fun b hb => (by cases hb), fun b hb => (by cases hb),
    fun b hb => (by cases hb)⟩

/-- An index that reports the corpus is up to date. -/
theorem Tracks.upToDate (h : s.Tracks)
    (hreports : s.workspace.index.snapshot.Reports s.tree.view (· ∈ s.workspace.corpus s.tree)) :
    s.UpToDate := by
  constructor
  · exact hreports.files_eq (fun p hp => (h.isAddress hp).isNormal)
      (CorpusOptions.pairwise_files h.wellFormed h.root)
  · exact hreports.unique (s.workspace.reports_reopened h.wellFormed h.root)

/-! ### Steps -/

/-- After a change that does not reach the index, only the text of the path is forgotten. -/
theorem Tracks.forget {change : FileChange} {tree : FileTree} (h : s.Tracks)
    (heffect : change.Effect s.tree tree) (hsame : s.tree.SameRepositories tree)
    (hkind : change.kind ≠ .deleted) (haccepts : s.workspace.accepts change.path = false) :
    let s' := { s with tree := tree, workspace := s.workspace.forget change.path }
    s'.Tracks ∧ (s.Serves → s'.Serves) := by
  obtain ⟨hcorpus, hsilent⟩ :=
    heffect.corpus_of_not_accepted h.wellFormed h.root h.ignore hkind haccepts
  refine ⟨⟨heffect.wellFormed, h.root, h.ignore, heffect.memory_agrees h.wellFormed hsame h.memory,
    h.accounts.congr hcorpus⟩, fun hserves hready => ?_⟩
  refine (hserves hready).congr (fun p _ => hcorpus p) fun p _ hp => ?_
  have hp' := (hcorpus p).1 hp
  exact heffect.indexReferences_eq h.wellFormed hsame (h.isAddress hp') (hsilent p hp')

/-- After a change that reaches the index, the queue accounts for it, and an index that is ready has
made it. -/
theorem Tracks.indexChange {change : FileChange} {tree : FileTree} (h : s.Tracks)
    (heffect : change.Effect s.tree tree) (hsame : s.tree.SameRepositories tree)
    (hreach : change.kind ≠ .deleted → s.workspace.accepts change.path = true) :
    let s' := { s with tree := tree, workspace := s.workspace.indexChange tree change }
    s'.Tracks ∧ (s.Serves → s'.Serves) := by
  have hexplains := heffect.explains h.wellFormed h.root h.ignore hreach
  obtain ⟨memory, hmemory, hresult⟩ := @Workspace.indexChange_eq tree s.workspace _ _ change
    (heffect.memory_agrees h.wellFormed hsame h.memory) (fun _ hp => hp.isNormal)
    ⟨heffect.isAddress, heffect.isAddress⟩
  rw [hresult]
  refine ⟨⟨heffect.wellFormed, h.root, h.ignore, hmemory,
    h.accounts.change heffect.isAddress hexplains _⟩,
    fun hserves hready => ?_⟩
  have hreports := hserves hready
  dsimp only at hready ⊢
  rw [if_pos hready]
  refine hreports.applyNow heffect.isAddress hexplains (fun p hp => h.isAddress hp)
    (fun p hp => Workspace.isAddress_of_mem_corpus heffect.wellFormed h.root hp)
    (fun p hp hsilent => heffect.indexReferences_eq h.wellFormed hsame (h.isAddress hp) hsilent)
    fun hkind hfile p hp hsays => ?_
  rw [FileChange.concerns_of_deleted hkind] at hsays
  exact Workspace.eq_of_startsWith h.wellFormed h.root hfile hp hsays

theorem Tracks.change {change : FileChange} {tree : FileTree} (h : s.Tracks)
    (hchange : change.Happens s.tree tree) (hsame : s.tree.SameRepositories tree) :
    (s.change tree change).Tracks ∧ (s.Serves → (s.change tree change).Serves) := by
  have heffect := hchange.effect h.wellFormed
  unfold Situation.change
  rw [Workspace.applyChange_eq]
  split
  next hreach => exact h.forget heffect hsame hreach.1 hreach.2
  next hreach =>
    exact h.indexChange heffect hsame fun hkind => Bool.not_eq_false _ ▸ fun hno =>
    hreach ⟨hkind, hno⟩

theorem Tracks.makeDirectories {place : Location} (h : s.Tracks) (hplace : s.tree.Enterable place)
    (hsame : s.tree.SameRepositories (s.tree.makeDirectories place)) :
    let s' := { s with tree := s.tree.makeDirectories place }
    s'.Tracks ∧ (s.Serves → s'.Serves) := by
  have hwell := h.wellFormed.makeDirectories hplace
  have hcorpus : ∀ q, q ∈ s.workspace.corpus (s.tree.makeDirectories place) ↔
      q ∈ s.workspace.corpus s.tree := by
    intro q
    by_cases hq : q.IsAddress
    · rw [Workspace.mem_corpus_iff hwell h.root h.ignore hq,
        Workspace.mem_corpus_iff h.wellFormed h.root h.ignore hq]
      simp only [FileTree.node?_makeDirectories_eq_file_iff]
    · exact iff_of_false (fun hmem => hq (Workspace.isAddress_of_mem_corpus hwell h.root hmem))
        fun hmem => hq (h.isAddress hmem)
  refine ⟨⟨hwell, h.root, h.ignore, ?_, h.accounts.congr hcorpus⟩, fun hserves hready => ?_⟩
  · refine FileTree.agrees_of_served h.wellFormed hwell hsame h.memory rfl
      fun q hq v text hfile hfresh => ⟨?_, hfresh⟩
    rw [← hfile]
    exact (FileTree.fileAt?_eq h.wellFormed hwell hq fun w =>
      FileTree.node?_makeDirectories_eq_file_iff).symm
  · exact (hserves hready).congr (fun p _ => hcorpus p) fun p _ hp =>
      FileTree.indexReferences_eq h.wellFormed hwell hsame (h.isAddress ((hcorpus p).1 hp))
        fun w => FileTree.node?_makeDirectories_eq_file_iff

theorem Tracks.ask {α : Type} {inquiry : Inquiry α} (h : s.Tracks)
    (hasks : inquiry.Asks (fun _ => True) Path.IsNormal) :
    let s' := { s with workspace := (s.workspace.ask s.tree inquiry).2 }
    s'.Tracks ∧ (s.Serves → s'.Serves) :=
  ⟨⟨h.wellFormed, h.root, h.ignore, h.memory.run_snd (fun _ hp => hp.isNormal) hasks, h.accounts⟩,
    id⟩

theorem Tracks.clear (h : s.Tracks) :
    let s' := { s with workspace := s.workspace.clearIndex }
    s'.Tracks ∧ (s.Serves → s'.Serves) :=
  ⟨⟨h.wellFormed, h.root, h.ignore, h.memory, h.accounts.clear⟩, fun _ hready => by cases hready⟩

theorem Tracks.beginBuild (h : s.Tracks) : s.beginBuild.Tracks ∧ (s.Serves → s.beginBuild.Serves) :=
  ⟨⟨h.wellFormed, h.root, h.ignore, h.memory,
    h.accounts.beginBuild (fun _ hp => h.isAddress hp) fun _ => Iff.rfl⟩, id⟩

/-- A request for the tree of a file is a step, however the file is spelled. -/
theorem step_templateTree (s : Situation) (p : Path) (depth : Nat) :
    Step s { s with
      workspace := (s.workspace.templateTree s.tree (s.workspace.resolveFile s.tree p) depth).2 } :=
  .ask (asks_templateTree (s.workspace.isNormal_resolveFile s.tree p) depth)

/-- A request for the callers of a file is a step, whether the index answers it or the files do. -/
theorem Tracks.step_callerTree (h : s.Tracks) (file : Path) (depth : Nat) :
    Step s { s with workspace := (s.workspace.callerTree s.tree file depth).2 } := by
  unfold Workspace.callerTree
  split
  · exact .ask (asks_callerTreeBy _ file depth)
  · exact .ask (asks_callerTreeByScan (fun p hp => (h.isAddress hp).isNormal) file depth)

/-! ### The end of a build -/

section EndBuild

variable {before after : List OpenBuild} {build : OpenBuild}

/-- The end of a build that is not the latest. -/
theorem Tracks.endBuild_superseded (h : s.Tracks) (hbuilds : s.builds = before ++ build :: after)
    (hnumber : s.workspace.index.started ≠ build.number) :
    let s' := s.endBuild build (before ++ after)
    s'.Tracks ∧ (s.Serves → s'.Serves) ∧ s'.published = s.published := by
  have haccounts := h.accounts
  rw [hbuilds] at haccounts
  obtain ⟨memory, hmemory, hresult⟩ :=
    Workspace.endBuild_superseded h.memory (fun _ hp => hp.isNormal)
    (fun p hp => (haccounts.files build (by simp) p hp).isNormal) hnumber
  unfold Situation.endBuild
  rw [hresult]
  exact ⟨⟨h.wellFormed, h.root, h.ignore, hmemory, haccounts.drop⟩, id, rfl⟩

/-- The end of the latest build publishes what it has read, and the index reports the files that are
kept. -/
theorem Tracks.endBuild_latest (h : s.Tracks) (hbuilds : s.builds = before ++ build :: after)
    (hnumber : s.workspace.index.started = build.number) :
    let s' := s.endBuild build (before ++ after)
    let publication : Publication := ⟨s.workspace.index.pending, build.files⟩
    s'.Tracks ∧ s'.published = publication :: s.published ∧ s'.workspace.index.ready = true ∧
      s'.workspace.corpus s'.tree = s.workspace.corpus s.tree ∧
      s'.workspace.index.snapshot.Reports s'.tree.view (· ∈ publication.kept.toList) := by
  have haccounts := h.accounts
  rw [hbuilds] at haccounts
  have haddressed := haccounts.isAddressed (show build ∈ before ++ build :: after by simp)
  obtain ⟨memory, hmemory, hresult⟩ := Workspace.endBuild_latest h.memory (fun _ hp => hp.isNormal)
    (fun p hp => ⟨haddressed.files p hp, haddressed.files p hp⟩)
    (fun c hc _ => ⟨haddressed.queue c hc, haddressed.queue c hc⟩)
  rw [hnumber] at hresult
  unfold Situation.endBuild
  rw [hresult]
  refine ⟨⟨h.wellFormed, h.root, h.ignore, hmemory, ?_⟩, rfl, rfl, rfl,
    haddressed.reports s.tree.view⟩
  rw [← hnumber]
  exact haccounts.publish hnumber.symm _

/-- A build that ends and strands no file serves the corpus. -/
theorem Tracks.serves_endBuild (h : s.Tracks) (hbuilds : s.builds = before ++ build :: after)
    (hnumber : s.workspace.index.started = build.number)
    (hstranded : Publication.stranded ⟨s.workspace.index.pending, build.files⟩ = []) :
    (s.endBuild build (before ++ after)).Serves := by
  obtain ⟨htracks, -, -, hcorpus, hreports⟩ := h.endBuild_latest hbuilds hnumber
  have haccounts := h.accounts
  rw [hbuilds] at haccounts
  have haddressed := haccounts.isAddressed (show build ∈ before ++ build :: after by simp)
  intro _
  rw [hcorpus]
  refine hreports.congr (fun p _ => ?_) fun _ _ _ => rfl
  by_cases hp : p.IsAddress
  · exact (Publication.mem_kept_iff haddressed haccounts.truthful
      (haccounts.completes build (by simp) hnumber.symm) hstranded hp).symm
  · exact iff_of_false (fun hmem => hp (h.isAddress hmem)) fun hmem =>
      hp (haddressed.of_mem_kept hmem)

/-- A build that ends up to date strands no file. -/
theorem Tracks.stranded_eq_nil (h : s.Tracks) (hbuilds : s.builds = before ++ build :: after)
    (hnumber : s.workspace.index.started = build.number)
    (hupToDate : (s.endBuild build (before ++ after)).UpToDate) :
    Publication.stranded ⟨s.workspace.index.pending, build.files⟩ = [] := by
  obtain ⟨htracks, -, -, hcorpus, hreports⟩ := h.endBuild_latest hbuilds hnumber
  have haccounts := h.accounts
  rw [hbuilds] at haccounts
  have haddressed := haccounts.isAddressed (show build ∈ before ++ build :: after by simp)
  by_contra hstranded
  obtain ⟨p, hkept, hgone⟩ := Publication.exists_stray haddressed haccounts.truthful hstranded
  have hp := (haddressed.of_mem_kept hkept).isNormal
  have hmem := hreports.canonical.mem_files_iff.2 ⟨hp, (hreports.contains_files_iff hp).2 hkept⟩
  rw [hupToDate.1, hcorpus] at hmem
  exact hgone hmem

end EndBuild

/-! ### Runs -/

/-- Every step keeps track. It serves the corpus as before, unless it publishes stranded files; and
a step to an index that is up to date publishes none. -/
theorem Step.tracks (hstep : Step s s') (h : s.Tracks) :
    s'.Tracks ∧ (s.Serves → (∀ p ∈ s'.published, p.stranded = []) → s'.Serves) ∧
      ((∀ p ∈ s.published, p.stranded = []) → (s'.workspace.index.ready = true → s'.UpToDate) →
        ∀ p ∈ s'.published, p.stranded = []) := by
  have quiet : ∀ {t : Situation}, t.published = s.published → t.Tracks ∧ (s.Serves → t.Serves) →
      t.Tracks ∧ (s.Serves → (∀ p ∈ t.published, p.stranded = []) → t.Serves) ∧
        ((∀ p ∈ s.published, p.stranded = []) → (t.workspace.index.ready = true → t.UpToDate) →
          ∀ p ∈ t.published, p.stranded = []) := fun hpublished ht =>
    ⟨ht.1, fun hserves _ => ht.2 hserves, fun hnone _ => hpublished ▸ hnone⟩
  cases hstep with
  | change hchange hsame => exact quiet rfl (h.change hchange hsame)
  | makeDirectories hplace hsame => exact quiet rfl (h.makeDirectories hplace hsame)
  | ask hasks => exact quiet rfl (h.ask hasks)
  | clear => exact quiet rfl h.clear
  | beginBuild => exact quiet rfl h.beginBuild
  | @endBuild before after build hbuilds =>
    by_cases hnumber : s.workspace.index.started = build.number
    · obtain ⟨htracks, hpublished, hready, -, -⟩ := h.endBuild_latest hbuilds hnumber
      rw [hpublished]
      refine ⟨htracks, fun _ hnone => h.serves_endBuild hbuilds hnumber (hnone _ (by simp)),
        fun hnone hupToDate p hp => ?_⟩
      rcases List.mem_cons.1 hp with rfl | hp
      · exact h.stranded_eq_nil hbuilds hnumber (hupToDate hready)
      · exact hnone p hp
    · obtain ⟨htracks, hserves, hpublished⟩ := h.endBuild_superseded hbuilds hnumber
      exact quiet hpublished ⟨htracks, hserves⟩

theorem upToDate_iff_of_tracks {trace : List Situation} (hrun : (s :: trace).IsChain Step)
    (h : s.Tracks) (hserves : s.Serves) (hnone : ∀ p ∈ s.published, p.stranded = []) :
    (∀ t ∈ trace, t.workspace.index.ready = true → t.UpToDate) ↔
      ∀ t ∈ trace, ∀ p ∈ t.published, p.stranded = [] := by
  induction trace generalizing s with
  | nil => exact iff_of_true (fun t ht => by cases ht) fun t ht => by cases ht
  | cons t trace ih =>
    rw [List.isChain_cons_cons] at hrun
    obtain ⟨htracks, hforward, hback⟩ := hrun.1.tracks h
    rw [List.forall_mem_cons, List.forall_mem_cons]
    constructor
    · rintro ⟨hupToDate, hrest⟩
      have ht := hback hnone hupToDate
      exact ⟨ht, (ih hrun.2 htracks (hforward hserves ht) ht).1 hrest⟩
    · rintro ⟨ht, hrest⟩
      have hserves' := hforward hserves ht
      exact ⟨fun hready => htracks.upToDate (hserves' hready),
        (ih hrun.2 htracks hserves' ht).2 hrest⟩

/-- For all files, roots, options without ignore files, and runs: after every step an index that is
ready is up to date, if and only if no publication of the run has stranded a file. -/
theorem upToDate_iff_none_stranded {tree : FileTree} (h : tree.WellFormed) (reader : IgnoreReader)
    (root : Path) {options : CorpusOptions} (hignore : options.respectIgnore = false)
    {trace : List Situation} (hrun : (opened reader tree root options :: trace).IsChain Step) :
    (∀ s ∈ trace, s.workspace.index.ready = true → s.UpToDate) ↔
      ∀ s ∈ trace, ∀ p ∈ s.published, p.stranded = [] :=
  upToDate_iff_of_tracks hrun (tracks_opened h reader root hignore) (fun hready => by cases hready)
    fun p hp => by cases hp

/-- Two files that refer to each other: one appears while the index is built, and the other is
written anew when the index is ready. -/
theorem upToDate_after_queued_change :
    let first : FileTree := .put {} ["a.yml"] "steps: []".toUTF8 none
    let second : FileTree := .put first ["b.yml"] "- template: a.yml".toUTF8 none
    let third : FileTree := .put second ["a.yml"] "- template: b.yml".toUTF8 none
    let start := opened .ofRules first ⟨"/"⟩ { respectIgnore := false }
    let build : OpenBuild := ⟨1, start.workspace.corpus first⟩
    let begun := start.beginBuild
    let queued := begun.change second ⟨.created, ⟨"/b.yml"⟩⟩
    let ended := queued.endBuild build []
    let rewritten := ended.change third ⟨.changed, ⟨"/a.yml"⟩⟩
    queued.workspace.index.pending.length = 1 ∧ ended.workspace.index.ready = true ∧
      rewritten.workspace.index.ready = true ∧ ended.UpToDate ∧ rewritten.UpToDate := by
  intro first second third start build begun queued ended rewritten
  have hfirst : first.WellFormed := by decide +kernel
  have hbegun : Step start begun := .beginBuild
  have hqueued : Step begun queued := .change (.written (by decide) (by decide) (by rfl))
    (FileTree.sameRepositories_of_forall_ne (by decide +kernel))
  have hended : Step queued ended := @Step.endBuild queued [] [] build (by rfl)
  have hrewritten : Step ended rewritten := .change (.written (by decide) (by decide) (by rfl))
    (FileTree.sameRepositories_of_forall_ne (by decide +kernel))
  have hrun : (start :: [begun, queued, ended, rewritten]).IsChain Step := by
    simp [hbegun, hqueued, hended, hrewritten]
  have hnone : ∀ s ∈ [begun, queued, ended, rewritten],
      s.published.all (·.stranded.isEmpty) = true := by
    decide +kernel
  have hready : ended.workspace.index.ready = true ∧ rewritten.workspace.index.ready = true := by
    decide +kernel
  have hupToDate := (upToDate_iff_none_stranded hfirst .ofRules ⟨"/"⟩ rfl hrun).2 fun s hs p hp =>
    List.isEmpty_iff.1 (List.all_eq_true.1 (hnone s hs) p hp)
  exact ⟨by decide +kernel, hready.1, hready.2, hupToDate ended (by simp) hready.1,
    hupToDate rewritten (by simp) hready.2⟩

end Situation

end TemplateAtlas
