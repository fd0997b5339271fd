import TemplateAtlas.Notification
import TemplateAtlas.Proofs.Corpus.Move
import TemplateAtlas.Proofs.Situation

/-!
# Notifications keep the index in sync

Something happens to the files (`Notification.Follows`), a notification names the paths, and every
change that it reports arrives at a workspace (`Workspace.notice`). An index that was what a fresh
workspace would build is so again, if the repositories above the files of the corpus stay the same
(`inSyncOutside_notice`). Of a directory that gets another name, a notification reports that the old
name is gone, and nothing of the files below the new one.
-/

namespace TemplateAtlas

open Inquiry

/-- A single thing happens to the files, and the notification of it names the paths that it
affects. -/
inductive Notification.Follows : Notification → List Path → FileTree → FileTree → Prop where
  /-- A file is made, or its content is replaced. -/
  | written {event : Notification} {p : Path} {content : ByteArray} {time? : Option Nat}
      {tree tree' : FileTree} :
    event = .create ∨ event = .modify → p.IsAddress → tree.write p content time? = .ok tree' →
      Follows event [p] tree tree'
  /-- A file is removed, or a directory with all that it holds. -/
  | removed {p : Path} {tree : FileTree} :
    p.IsAddress → p.place ≠ [] → Follows .remove [p] tree (tree.remove p.place)
  /-- A file gets another name, or a directory with all that it holds. -/
  | renamed {p q : Path} {tree : FileTree} :
    p.IsAddress → q.IsAddress → tree.Movable p.place q.place →
      Follows .rename [p, q] tree (tree.move p.place q.place)

theorem Notification.Follows.renamed_address {tree : FileTree} {source target : Location}
    (hsource : IsPlace source) (htarget : IsPlace target) (hmovable : tree.Movable source target) :
    Notification.rename.Follows [.address source, .address target] tree
      (tree.move source target) := by
  have hplaces : tree.Movable (Path.address source).place (Path.address target).place := by
    rwa [Path.place_address hsource, Path.place_address htarget]
  have hfollows := Follows.renamed (Path.isAddress_address hsource)
    (Path.isAddress_address htarget) hplaces
  rwa [Path.place_address hsource, Path.place_address htarget] at hfollows

theorem Notification.Follows.isAddress {event : Notification} {paths : List Path}
    {tree tree' : FileTree} {p : Path} (hfollows : event.Follows paths tree tree')
    (hp : p ∈ paths) : p.IsAddress := by
  cases hfollows with
  | written _ haddress _ => exact List.mem_singleton.1 hp ▸ haddress
  | removed haddress _ => exact List.mem_singleton.1 hp ▸ haddress
  | renamed haddress haddress' _ =>
    rcases List.mem_pair.1 hp with rfl | rfl
    · exact haddress
    · exact haddress'

theorem Notification.Follows.wellFormed {event : Notification} {paths : List Path}
    {tree tree' : FileTree} (hfollows : event.Follows paths tree tree') (h : tree.WellFormed) :
    tree'.WellFormed := by
  cases hfollows with
  | written _ haddress hwrite =>
    obtain ⟨hwritable, rfl⟩ := FileTree.write_eq_ok (Path.isAddress_iff.1 haddress).1 hwrite
    exact h.put hwritable _ _
  | removed _ _ => exact h.remove _
  | renamed _ _ hmovable => exact h.move hmovable

/-! ### What a notification reports -/

namespace Notification

variable {event : Notification} {options : CorpusOptions} {tree : FileTree} {root p : Path}
  {kind : ChangeKind}

theorem change?_of_isDirectory (hdirectory : tree.isDirectory p = true) :
    event.change? options tree root p = none := by
  unfold change?
  split
  · rfl
  · rw [hdirectory]
    rfl

/-- Of a path where nothing is left, a removal and a renaming report that it is gone. -/
theorem change?_of_gone (hevent : event = .remove ∨ event = .rename) (h : tree.WellFormed)
    (hp : p.IsAddress) (hgone : tree.node? p.place = none) (hbelow : p.startsWith root = true) :
    event.change? options tree root p = some ⟨.deleted, p⟩ := by
  have hno : tree.isDirectory p = false := FileTree.isDirectory_eq_false h hp (by simp [hgone])
  have hexists : tree.exists? p = false := Bool.eq_false_iff.2 fun hexists => by
    rw [FileTree.exists?_iff h hp, hgone] at hexists
    cases hexists.2
  have hkind : event.kind? tree p = some .deleted := by
    rcases hevent with rfl | rfl
    · rfl
    · rw [kind?, hexists]
      rfl
  simp [change?, hkind, hno, hbelow]

/-- A file that is there is reported, if the root accepts its path. -/
theorem toList_change?_of_file (hkind : event.kind? tree p = some kind) (hdeleted : kind ≠ .deleted)
    (h : tree.WellFormed) (hp : p.IsAddress) {v : FileVersion}
    (hfile : tree.node? p.place = some (.file v)) :
    (event.change? options tree root p).toList = if options.accepts root p then
      [⟨kind, p⟩] else [] := by
  have hno : tree.isDirectory p = false := FileTree.isDirectory_eq_false h hp (by simp [hfile])
  cases haccepts : options.accepts root p <;> simp [change?, hkind, hdeleted, hno, haccepts]

theorem changes_eq_flatMap (event : Notification) (options : CorpusOptions) (tree : FileTree)
    (root : Path) (paths : List Path) :
    event.changes options tree root paths = paths.flatMap fun p =>
      (event.change? options tree root p).toList := by
  rw [changes, List.filterMap_eq_flatMap_toList]

end Notification

namespace Workspace

variable {ws : Workspace} {tree tree' : FileTree} {view : View} {member : Path → Prop} {p : Path}
  {kind : ChangeKind}

/-- The workspace after a notification: every change that it reports arrives. -/
def notice (ws : Workspace) (tree : FileTree) (event : Notification) (paths : List Path) :
    Workspace :=
  (event.changes ws.options tree ws.root paths).foldl (·.applyChange tree ·) ws

/-- The directories among some paths that hold files of the corpus. -/
def carried (ws : Workspace) (tree : FileTree) (paths : List Path) : List Path :=
  paths.filter fun d => tree.isDirectory d && (ws.corpus tree).any (·.startsWith d)

/-- The index is ready and is what a fresh workspace would build, if from both is removed what lies
below some directories. -/
structure InSyncOutside (ws : Workspace) (tree : FileTree) (directories : List Path) : Prop where
  /-- The index is ready. -/
  ready : ws.index.ready = true
  /-- It serves what would be built. -/
  snapshot : directories.foldl Snapshot.removePath ws.index.snapshot =
    directories.foldl Snapshot.removePath (ws.reopened.buildIndex tree).2.index.snapshot

/-- The index is ready and is what a fresh workspace would build. -/
def InSync (ws : Workspace) (tree : FileTree) : Prop :=
  ws.InSyncOutside tree []

/-- The index is ready and reports the members as a view shows them. -/
structure Serves (ws : Workspace) (view : View) (member : Path → Prop) : Prop where
  /-- The index is ready. -/
  ready : ws.index.ready = true
  /-- It reports the members. -/
  reports : ws.index.snapshot.Reports view member

/-! ### Arrivals -/

/-- Nothing is read when a deletion arrives. -/
theorem applyChange_of_deleted (hready : ws.index.ready = true) (hp : p.IsAddress) :
    ws.applyChange tree ⟨.deleted, p⟩ = { ws.forget p with
      index := { ws.index with
        snapshot := ws.index.snapshot.removePath p
        pending := ws.index.queued ⟨.deleted, p⟩ } } := by
  have hnormal : FileChange.normalize ⟨.deleted, p⟩ = ⟨.deleted, p⟩ :=
    FileChange.normalize_of_isAddress hp
  have happly : ws.index.apply ⟨.deleted, p⟩ = pure { ws.index with
      snapshot := ws.index.snapshot.removePath p
      pending := ws.index.queued ⟨.deleted, p⟩ } := by
    rw [Index.apply_eq, if_pos hready]
    rfl
  rw [applyChange_eq, hnormal, if_neg fun hkind => hkind.1 rfl, indexChange, ask, happly]
  rfl

/-- When a change arrives at a path that the workspace accepts, the path is read again. -/
theorem applyChange_of_accepts (hready : ws.index.ready = true) (hp : p.IsAddress)
    (haccepts : ws.accepts p = true) (hroots : ws.memory.roots.Agrees (· = p) tree) :
    ∃ memory, ws.applyChange tree ⟨kind, p⟩ = { ws with
      memory := memory
      index := { ws.index with
        snapshot := (Index.applyNow ⟨kind, p⟩ ws.index.snapshot).answer tree.view
        pending := ws.index.queued ⟨kind, p⟩ } } := by
  have hnormal : FileChange.normalize ⟨kind, p⟩ = ⟨kind, p⟩ := FileChange.normalize_of_isAddress hp
  -- the text of the path has just been forgotten, so none is served for it
  have hmemory : (ws.forget p).memory.Agrees (· = p) (· = p) tree := by
    refine ⟨?_, hroots⟩
    rintro q rfl v text - hfresh
    rw [forget, Cache.fresh?_invalidate, if_pos Std.ReflCmp.compare_self] at hfresh
    cases hfresh
  obtain ⟨memory, -, hresult⟩ :=
    @indexChange_eq tree ws _ _ ⟨kind, p⟩ hmemory (fun q hq => hq ▸ hp.isNormal) ⟨rfl, rfl⟩
  refine ⟨memory, ?_⟩
  rw [applyChange_eq, hnormal, if_neg fun hno => by
    rw [haccepts] at hno; exact Bool.false_ne_true hno.2.symm, hresult, if_pos hready]

/-- An arrival changes neither the root nor the options. -/
theorem reopened_applyChange (ws : Workspace) (tree : FileTree) (change : FileChange) :
    (ws.applyChange tree change).reopened = ws.reopened := by
  rw [applyChange_eq]
  split <;> rfl

theorem reopened_notice (ws : Workspace) (tree : FileTree) (event : Notification)
    (paths : List Path) : (ws.notice tree event paths).reopened = ws.reopened := by
  unfold notice
  generalize event.changes ws.options tree ws.root paths = changes
  induction changes generalizing ws with
  | nil => rfl
  | cons change changes ih => rw [List.foldl_cons, ih, reopened_applyChange]

section Arrivals

variable (hserves : ws.Serves view (· ∈ ws.corpus tree)) (h : tree.WellFormed)
  (hroot : ws.root.IsAddress)
variable (hignore : ws.options.respectIgnore = false)

include hserves h hroot hignore

/-- A deletion takes from the index what it takes from the corpus, whatever else has become of the
files since. -/
theorem Serves.applyChange_deleted (heffect : FileChange.Effect ⟨.deleted, p⟩ tree tree')
    (now : FileTree) : (ws.applyChange now ⟨.deleted, p⟩).Serves view (· ∈ ws.corpus tree') := by
  have hreports : ((Index.applyNow ⟨.deleted, p⟩ ws.index.snapshot).answer view).Reports view
      (· ∈ ws.corpus tree') := by
    refine Snapshot.Reports.applyNow_of_deleted heffect.isAddress
      (heffect.explains h hroot hignore fun hkind => absurd rfl hkind)
      (fun q hq => isAddress_of_mem_corpus h hroot hq)
      (fun q hq => isAddress_of_mem_corpus heffect.wellFormed hroot hq)
      (fun _ _ _ => rfl) hserves.reports rfl ?_
    intro hfile q hq hhere
    exact eq_of_startsWith h hroot hfile hq (by rwa [FileChange.concerns_of_deleted rfl] at hhere)
  rw [applyChange_of_deleted hserves.ready heffect.isAddress]
  exact ⟨hserves.ready, hreports⟩

/-- The files that a change other than a deletion leaves are in the index after its arrival, if the
references of the other files are as before. -/
theorem Serves.foldl_applyChange (hkind : kind ≠ .deleted)
    (heffect : FileChange.Effect ⟨kind, p⟩ tree tree')
    (hview : ∀ q ∈ ws.corpus tree', FileChange.concerns ⟨kind, p⟩ q = false →
      (indexReferences q).answer tree'.view = (indexReferences q).answer view)
    (hroots : p ∈ ws.corpus tree' → ws.memory.roots.Agrees (· = p) tree') :
    ((if ws.accepts p then [(⟨kind, p⟩ : FileChange)] else []).foldl
      (·.applyChange tree' ·) ws).Serves tree'.view (· ∈ ws.corpus tree') := by
  split
  next haccepts =>
    have hexplains := heffect.explains h hroot hignore fun _ => haccepts
    have hp : p ∈ ws.corpus tree' := by
      refine (hexplains p heffect.isAddress).2 ?_
      rwa [if_pos (FileChange.concerns_self ⟨kind, p⟩)]
    obtain ⟨memory, hresult⟩ :=
      applyChange_of_accepts hserves.ready heffect.isAddress haccepts (hroots hp)
    rw [List.foldl_cons, List.foldl_nil, hresult]
    refine ⟨hserves.ready, Snapshot.Reports.applyNow_of_not_deleted heffect.isAddress hexplains
      (fun q hq => isAddress_of_mem_corpus h hroot hq)
      (fun q hq => isAddress_of_mem_corpus heffect.wellFormed hroot hq)
      (fun q hq hsilent => hview q ?_ hsilent) hserves.reports hkind⟩
    refine (hexplains q (isAddress_of_mem_corpus h hroot hq)).2 ?_
    rwa [if_neg (by rw [hsilent]; exact Bool.false_ne_true)]
  next haccepts =>
    obtain ⟨hcorpus, hsilent⟩ :=
      heffect.corpus_of_not_accepted h hroot hignore hkind (Bool.eq_false_iff.2 haccepts)
    refine ⟨hserves.ready, hserves.reports.congr (fun q _ => hcorpus q) fun q _ hq => ?_⟩
    exact hview q hq (hsilent q ((hcorpus q).1 hq))

end Arrivals

/-! ### One lemma for each thing that happens -/

variable {q : Path}

/-- A file of the corpus that lies below no directory among some paths. -/
def LiesOutside (ws : Workspace) (tree : FileTree) (paths : List Path) (c : Path) : Prop :=
  c ∈ ws.corpus tree ∧ ∀ d ∈ paths, tree.isDirectory d = true → c.startsWith d = false

/-- A file that is read again after a notification: one that it names, and that lies outside its
directories. -/
def ReadsAgain (ws : Workspace) (tree : FileTree) (paths : List Path) (c : Path) : Prop :=
  c ∈ paths ∧ ws.LiesOutside tree paths c

theorem liesOutside_iff {paths : List Path} {c : Path} :
    ws.LiesOutside tree paths c ↔ c ∈ ws.corpus tree ∧
      ∀ d ∈ ws.carried tree paths, c.startsWith d = false := by
  refine and_congr_right fun hc => ?_
  simp only [carried, List.mem_filter, Bool.and_eq_true, List.any_eq_true]
  constructor
  · exact fun h d hd => h d hd.1 hd.2.1
  · intro h d hd hdirectory
    by_contra hbelow
    exact hbelow (h d ⟨hd, hdirectory, c, hc, Bool.not_eq_false _ ▸ hbelow⟩)

/-- Where no directory is named, all files of the corpus lie outside. -/
theorem liesOutside_iff_of_no_directory {paths : List Path}
    (hno : ∀ d ∈ paths, tree.isDirectory d = false) {c : Path} :
    ws.LiesOutside tree paths c ↔ c ∈ ws.corpus tree := by
  refine and_iff_left fun d hd hdirectory => ?_
  rw [hno d hd] at hdirectory
  cases hdirectory

theorem Serves.congr {view view' : View} {member member' : Path → Prop}
    (hserves : ws.Serves view member) (hmember : ∀ c, member' c ↔ member c)
    (hview : ∀ c, member' c → (indexReferences c).answer view' = (indexReferences c).answer view) :
    ws.Serves view' member' :=
  ⟨hserves.ready, hserves.reports.congr (fun c _ => hmember c) fun c _ => hview c⟩

/-- What is remembered of the root above a file is true of the files as they are now. -/
theorem agrees_of_rootAbove_eq {member : Path → Prop} (hmemory : ws.memory.roots.Agrees member tree)
    (hp : member p) (hsame : tree'.rootAbove p.directory = tree.rootAbove p.directory) :
    ws.memory.roots.Agrees (· = p) tree' := by
  rintro q rfl root hfind
  rw [hsame]
  exact hmemory q hp root hfind

section Happened

variable (hserves : ws.Serves tree.view (· ∈ ws.corpus tree)) (h : tree.WellFormed)
  (hroot : ws.root.IsAddress)
variable (hignore : ws.options.respectIgnore = false)

include hserves h hroot hignore

theorem serves_notice_written {event : Notification} {content : ByteArray} {time? : Option Nat}
    (hevent : event = .create ∨ event = .modify) (hp : p.IsAddress)
    (hwrite : tree.write p content time? = .ok tree')
    (hmemory : ws.memory.roots.Agrees (ws.ReadsAgain tree' [p]) tree)
    (hsame : ∀ c, ws.LiesOutside tree' [p] c →
      tree'.rootAbove c.directory = tree.rootAbove c.directory) :
    (ws.notice tree' event [p]).Serves tree'.view (ws.LiesOutside tree' [p]) := by
  obtain ⟨kind, hkind, hdeleted⟩ : ∃ kind, event.kind? tree' p = some kind ∧ kind ≠ .deleted := by
    rcases hevent with rfl | rfl
    · exact ⟨.created, rfl, by decide⟩
    · exact ⟨.changed, rfl, by decide⟩
  obtain ⟨habsolute, hnormal⟩ := Path.isAddress_iff.1 hp
  have heffect := FileChange.effect_of_written h hdeleted habsolute hwrite
  rw [hnormal] at heffect
  have h' := heffect.wellFormed
  obtain ⟨v, hfile⟩ := (heffect.concerned p hp (FileChange.concerns_self ⟨kind, p⟩)).2 hdeleted
  have houtside : ∀ c, ws.LiesOutside tree' [p] c ↔ c ∈ ws.corpus tree' := fun c =>
    liesOutside_iff_of_no_directory fun d hd => by
      rw [List.mem_singleton.1 hd, FileTree.isDirectory_eq_false h' hp (by simp [hfile])]
  rw [notice, Notification.changes_eq_flatMap, List.flatMap_singleton,
    Notification.toList_change?_of_file hkind hdeleted h' hp hfile]
  refine (hserves.foldl_applyChange h hroot hignore hdeleted heffect
    (fun c hc hsilent => ?_) fun hmem =>
    agrees_of_rootAbove_eq hmemory ⟨List.mem_singleton_self p, (houtside p).2 hmem⟩
      (hsame p ((houtside p).2 hmem))).congr houtside fun _ _ => rfl
  have hc' := isAddress_of_mem_corpus h' hroot hc
  exact FileTree.indexReferences_eq_of_rootAbove h h' hc' (hsame c ((houtside c).2 hc))
    fun v => by rw [heffect.other c hc' hsilent]

theorem serves_notice_removed (hp : p.IsAddress) (hne : p.place ≠ [])
    (hbelow : p.startsWith ws.root = true)
    (hsame : ∀ c, ws.LiesOutside (tree.remove p.place) [p] c →
      (tree.remove p.place).rootAbove c.directory = tree.rootAbove c.directory) :
    (ws.notice (tree.remove p.place) .remove [p]).Serves (tree.remove p.place).view
      (ws.LiesOutside (tree.remove p.place) [p]) := by
  have heffect := FileChange.effect_of_removed_address h hp
  have h' := heffect.wellFormed
  have hgone : (tree.remove p.place).node? p.place = none := by
    rw [FileTree.node?_remove tree p.place hne, if_pos List.prefix_rfl]
  have houtside : ∀ c, ws.LiesOutside (tree.remove p.place) [p] c ↔
      c ∈ ws.corpus (tree.remove p.place) := fun c =>
    liesOutside_iff_of_no_directory fun d hd => by
      rw [List.mem_singleton.1 hd, FileTree.isDirectory_eq_false h' hp (by simp [hgone])]
  rw [notice, Notification.changes_eq_flatMap, List.flatMap_singleton,
    Notification.change?_of_gone (.inl rfl) h' hp hgone hbelow]
  refine (hserves.applyChange_deleted h hroot hignore heffect _).congr houtside fun c hc => ?_
  exact indexReferences_eq_of_remove h h' hroot hignore ((houtside c).1 hc) rfl (hsame c hc)

section Renamed

variable (hp : p.IsAddress) (hmovable : tree.Movable p.place q.place)
  (hbelow : p.startsWith ws.root = true)
variable (hmoved : tree' = tree.move p.place q.place)

include hp hmovable hbelow hmoved

/-- The old name is reported first, and the index drops what was there; then comes what is reported
of the new name. -/
theorem notice_renamed : ∃ index : Index,
    { ws.forget p with index := index }.Serves tree.view (· ∈ ws.corpus (tree.remove p.place)) ∧
      ws.notice tree' .rename [p, q] =
        ((Notification.rename.change? ws.options tree' ws.root q).toList).foldl
          (·.applyChange tree' ·) { ws.forget p with index := index } := by
  have heffect := FileChange.effect_of_removed_address h hp
  have hfirst := hserves.applyChange_deleted h hroot hignore heffect tree'
  rw [applyChange_of_deleted hserves.ready hp] at hfirst
  refine ⟨_, hfirst, ?_⟩
  have hgone : tree'.node? p.place = none := hmoved ▸ hmovable.node?_move_source h
  rw [notice, Notification.changes_eq_flatMap, List.flatMap_cons, List.flatMap_singleton,
    Notification.change?_of_gone (.inr rfl) (hmoved ▸ h.move hmovable) hp hgone hbelow,
    Option.toList_some, List.singleton_append, List.foldl_cons,
    applyChange_of_deleted hserves.ready hp]

variable (hq : q.IsAddress)

include hq

theorem serves_notice_renamed_file {v : FileVersion} (hfile : tree.node? p.place = some (.file v))
    (hmemory : ws.memory.roots.Agrees (ws.ReadsAgain tree' [p, q]) tree)
    (hsame : ∀ c, ws.LiesOutside tree' [p, q] c →
      tree'.rootAbove c.directory = tree.rootAbove c.directory) :
    (ws.notice tree' .rename [p, q]).Serves tree'.view (ws.LiesOutside tree' [p, q]) := by
  have h' : tree'.WellFormed := hmoved ▸ h.move hmovable
  have hkind : ChangeKind.created ≠ .deleted := by decide
  have hgone : tree'.node? p.place = none := hmoved ▸ hmovable.node?_move_source h
  have harrived : tree'.node? q.place = some (.file v) :=
    hmoved ▸ (hmovable.node?_move_target h).trans hfile
  have hcreated : Notification.rename.kind? tree' q = some .created := by
    rw [Notification.kind?,
      (FileTree.exists?_iff h' hq).2 ⟨hmovable.followable, by rw [harrived]; rfl⟩]
    rfl
  have houtside : ∀ c, ws.LiesOutside tree' [p, q] c ↔ c ∈ ws.corpus tree' := fun c =>
    liesOutside_iff_of_no_directory fun d hd => by
      rcases List.mem_pair.1 hd with rfl | rfl
      · exact FileTree.isDirectory_eq_false h' hp (by simp [hgone])
      · exact FileTree.isDirectory_eq_false h' hq (by simp [harrived])
  obtain ⟨index, hserves₁, hnotice⟩ :=
    notice_renamed hserves h hroot hignore hp hmovable hbelow hmoved
  have heffect := FileChange.effect_of_moved h hq hmovable hfile
  rw [← hmoved] at heffect
  rw [hnotice, Notification.toList_change?_of_file hcreated hkind h' hq harrived]
  refine (hserves₁.foldl_applyChange (h.remove _) hroot hignore hkind heffect
    (fun c hc hsilent => ?_) fun hmem =>
    agrees_of_rootAbove_eq hmemory ⟨List.mem_pair.2 (.inr rfl), (houtside q).2 hmem⟩
      (hsame q ((houtside q).2 hmem))).congr houtside fun _ _ => rfl
  exact indexReferences_eq_of_remove h h' hroot hignore hc
    (heffect.other c (isAddress_of_mem_corpus h' hroot hc) hsilent) (hsame c ((houtside c).2 hc))

theorem serves_notice_renamed_directory (hdirectory : tree.node? p.place = some .directory)
    (hsame : ∀ c, ws.LiesOutside tree' [p, q] c →
      tree'.rootAbove c.directory = tree.rootAbove c.directory) :
    (ws.notice tree' .rename [p, q]).Serves tree'.view (ws.LiesOutside tree' [p, q]) := by
  have h' : tree'.WellFormed := hmoved ▸ h.move hmovable
  have hgone : tree'.node? p.place = none := hmoved ▸ hmovable.node?_move_source h
  have harrived : tree'.node? q.place = some .directory :=
    hmoved ▸ (hmovable.node?_move_target h).trans hdirectory
  have hno : tree'.isDirectory p = false := FileTree.isDirectory_eq_false h' hp (by simp [hgone])
  have hyes : tree'.isDirectory q = true :=
    (FileTree.isDirectory_iff h' hq).2 ⟨hmovable.followable, harrived⟩
  have houtside : ∀ c, ws.LiesOutside tree' [p, q] c ↔ c ∈ ws.corpus (tree.remove p.place) := by
    intro c
    rw [mem_corpus_remove_iff h hroot hignore hq hmovable hdirectory, ← hmoved]
    simp [LiesOutside, hno, hyes]
  obtain ⟨index, hserves₁, hnotice⟩ :=
    notice_renamed hserves h hroot hignore hp hmovable hbelow hmoved
  rw [hnotice, Notification.change?_of_isDirectory hyes]
  refine hserves₁.congr houtside fun c hc => ?_
  have hapart : ¬q.place <+: c.place := by
    rw [← CorpusOptions.startsWith_iff hq (isAddress_of_mem_corpus h' hroot hc.1),
      hc.2 q (by simp) hyes]
    exact Bool.false_ne_true
  have hleft : tree'.node? c.place = (tree.remove p.place).node? c.place := by
    rw [hmoved, FileTree.node?_move_of_not_below h hmovable.ne_nil hapart]
  exact indexReferences_eq_of_remove h h' hroot hignore hc.1 hleft (hsame c hc)

end Renamed

/-- After whatever has happened, the index reports the files of the corpus that lie below no
directory that the notification names. -/
theorem serves_notice {event : Notification} {paths : List Path}
    (hfollows : event.Follows paths tree tree') (hbelow : ∀ p ∈ paths, p.startsWith ws.root = true)
    (hmemory : ws.memory.roots.Agrees (ws.ReadsAgain tree' paths) tree)
    (hsame : ∀ c, ws.LiesOutside tree' paths c →
      tree'.rootAbove c.directory = tree.rootAbove c.directory) :
    (ws.notice tree' event paths).Serves tree'.view (ws.LiesOutside tree' paths) := by
  cases hfollows with
  | written hevent hp hwrite =>
    exact serves_notice_written hserves h hroot hignore hevent hp hwrite hmemory hsame
  | removed hp hne =>
    exact serves_notice_removed hserves h hroot hignore hp hne (hbelow _ (by simp)) hsame
  | renamed hp hq hmovable =>
    obtain ⟨node, hnode⟩ := Option.isSome_iff_exists.1 hmovable.isSome
    cases node with
    | file v =>
      exact serves_notice_renamed_file hserves h hroot hignore hp hmovable
        (hbelow _ (by simp)) rfl hq hnode hmemory hsame
    | directory =>
      exact serves_notice_renamed_directory hserves h hroot hignore hp hmovable
        (hbelow _ (by simp)) rfl hq hnode hsame

end Happened

/-! ### In sync -/

/-- A workspace that has been opened and indexed. -/
def indexed (reader : IgnoreReader) (tree : FileTree) (root : Path) (options : CorpusOptions) :
    Workspace :=
  ((new reader tree root options).buildIndex tree).2

/-- It is in sync, and what it remembers of repositories is true. -/
theorem indexed_spec (h : tree.WellFormed) (reader : IgnoreReader) (root : Path)
    (options : CorpusOptions) :
    (indexed reader tree root options).root = (new reader tree root options).root ∧
      (indexed reader tree root options).options = options ∧
        (indexed reader tree root options).InSync tree ∧
      (indexed reader tree root options).memory.roots.Agrees Path.IsNormal tree := by
  have hempty : (new reader tree root options).memory.Agrees (fun _ => True) Path.IsNormal tree :=
    Memory.agrees_empty _ _ tree
  obtain ⟨memory, hmemory, hbuild⟩ :=
    @buildIndex_eq tree (new reader tree root options) h
      (isAddress_root_new reader tree root options) hempty rfl
  have hreopened : ∀ memory index,
      { new reader tree root options with memory := memory, index := index }.reopened =
        new reader tree root options :=
    fun _ _ => rfl
  rw [indexed, hbuild]
  refine ⟨rfl, rfl, ⟨rfl, ?_⟩, hmemory.roots⟩
  rw [List.foldl_nil, List.foldl_nil, hreopened, hbuild]

theorem InSync.serves (hsync : ws.InSync tree) (h : tree.WellFormed) (hroot : ws.root.IsAddress) :
    ws.Serves tree.view (· ∈ ws.corpus tree) := by
  have hsnapshot : ws.index.snapshot = (ws.reopened.buildIndex tree).2.index.snapshot :=
    hsync.snapshot
  exact ⟨hsync.ready, hsnapshot ▸ ws.reports_reopened h hroot⟩

/-- An index that is in sync stays in sync through whatever happens to the files and is notified, as
long as the repositories above the files of the corpus stay the same, and what is remembered of the
repositories of those files that are read again is true. What lies below the new name of a directory
is left open. -/
theorem inSyncOutside_notice {event : Notification} {paths : List Path} (h : tree.WellFormed)
    (hroot : ws.root.IsAddress) (hignore : ws.options.respectIgnore = false)
    (hsync : ws.InSync tree) (hfollows : event.Follows paths tree tree')
    (hbelow : ∀ p ∈ paths, p.startsWith ws.root = true)
    (hmemory : ws.memory.roots.Agrees (ws.ReadsAgain tree' paths) tree)
    (hsame : ∀ c, ws.LiesOutside tree' paths c →
      tree'.rootAbove c.directory = tree.rootAbove c.directory) :
    (ws.notice tree' event paths).InSyncOutside tree' (ws.carried tree' paths) := by
  have h' := hfollows.wellFormed h
  have hserves := serves_notice (hsync.serves h hroot) h hroot hignore hfollows hbelow hmemory hsame
  -- a directory is no file of the corpus, so taking it away takes what lies below it
  have hdirectories : ∀ d ∈ ws.carried tree' paths, d.IsNormal ∧ d ∉ ws.corpus tree' := by
    intro d hd
    obtain ⟨hmem, hcarried⟩ := List.mem_filter.1 hd
    have haddress := hfollows.isAddress hmem
    refine ⟨haddress.isNormal, fun hfile => ?_⟩
    obtain ⟨-, -, v, hnode⟩ := (mem_corpus_iff h' hroot hignore haddress).1 hfile
    have hdirectory :=
      ((FileTree.isDirectory_iff h' haddress).1 (Bool.and_eq_true_iff.1 hcarried).1).2
    rw [hnode] at hdirectory
    cases hdirectory
  refine ⟨hserves.ready, ?_⟩
  rw [reopened_notice]
  have hnoticed := hserves.reports.foldl_removePath fun d hd =>
    ⟨(hdirectories d hd).1, fun hmem => (hdirectories d hd).2 hmem.1⟩
  have hfresh := (ws.reports_reopened h' hroot).foldl_removePath hdirectories
  refine hnoticed.unique (hfresh.congr (fun c _ => ?_) fun _ _ _ => rfl)
  rw [liesOutside_iff, and_assoc, and_self_iff]

/-- A template and a pipeline that refers to it. -/
def pairProject : FileTree :=
  ((({} : FileTree).makeDirectories ["main"]).put
    ["main", "a.yml"] "- template: b.yml\n".toUTF8 none).put
    ["main", "b.yml"] "steps: []\n".toUTF8 none

theorem wellFormed_pairProject : pairProject.WellFormed := by
  decide +kernel

/-- The template gets another name. -/
theorem inSyncOutside_notice_renamed :
    let tree' := pairProject.move ["main", "b.yml"] ["main", "c.yml"]
    let ws := indexed .ofRules pairProject ⟨"/main"⟩ { respectIgnore := false }
    let paths := [Path.address ["main", "b.yml"], Path.address ["main", "c.yml"]]
    pairProject.WellFormed ∧ Notification.rename.Follows paths pairProject tree' ∧
      ws.InSync pairProject ∧
      (ws.notice tree' .rename paths).InSyncOutside tree' (ws.carried tree' paths) := by
  intro tree' ws paths
  have h := wellFormed_pairProject
  obtain ⟨hroot, hoptions, hsync, hroots⟩ :=
    indexed_spec h .ofRules ⟨"/main"⟩ { respectIgnore := false }
  have hroot' : ws.root.IsAddress :=
    hroot ▸ isAddress_root_new .ofRules pairProject ⟨"/main"⟩ ws.options
  have hmovable : pairProject.Movable ["main", "b.yml"] ["main", "c.yml"] :=
    .of_free h (by decide) (by decide +kernel) (by decide) (by decide) (by decide +kernel)
      (by decide +kernel) (by decide +kernel)
  have hfollows : Notification.rename.Follows paths pairProject tree' :=
    .renamed_address (by decide) (by decide) hmovable
  have hsame : FileTree.SameRepositories pairProject tree' :=
    FileTree.sameRepositories_of_forall_ne (by decide +kernel)
  have hbelow : ∀ p ∈ paths, p.startsWith ws.root = true := by
    rw [hroot]
    decide +kernel
  have hcorpus : ∀ c ∈ ws.corpus tree', c.IsAddress := fun c hc =>
    isAddress_of_mem_corpus (hfollows.wellFormed h) hroot' hc
  exact ⟨h, hfollows, hsync, inSyncOutside_notice h hroot' (by rw [hoptions]) hsync hfollows hbelow
    (fun c hc => hroots c (hcorpus c hc.2.1).isNormal)
    fun c hc => FileTree.rootAbove_eq h (hfollows.wellFormed h) hsame (hcorpus c hc.1).directory⟩

/-! ### Out of sync -/

/-- Something happens below the root of a workspace that is in sync, and after the notification it
is not. -/
structure LosesSync (ws : Workspace) (tree : FileTree) (event : Notification) (paths : List Path)
    (tree' : FileTree) : Prop where
  /-- The files are well-formed. -/
  wellFormed : tree.WellFormed
  /-- No ignore file counts. -/
  ignore : ws.options.respectIgnore = false
  /-- The notification follows what happens. -/
  follows : event.Follows paths tree tree'
  /-- It happens below the root. -/
  below : ∀ p ∈ paths, p.startsWith ws.root = true
  /-- The index is in sync before. -/
  before : ws.InSync tree
  /-- It is not in sync afterwards. -/
  after : ¬(ws.notice tree' event paths).InSync tree'

/-- The texts of the files of a snapshot, each with those of its targets. -/
def linkTexts (s : Snapshot) : List (RawText × List RawText) :=
  s.forward.entries.map fun (file, refs) => (file.text, refs.map fun r => r.target.text)

theorem not_inSync_of_linkTexts_ne
    (hne : linkTexts ws.index.snapshot ≠ linkTexts (ws.reopened.buildIndex tree).2.index.snapshot) :
    ¬ws.InSync tree :=
  fun hsync => hne (congrArg linkTexts hsync.snapshot)

/-- A directory that holds a template. -/
def folderProject : FileTree :=
  (({} : FileTree).makeDirectories ["main", "a"]).put
    ["main", "a", "x.yml"] "steps: []\n".toUTF8 none

/-- A template that refers to another from the root of its repository. -/
def rootedProject : FileTree :=
  (({} : FileTree).makeDirectories ["main", "sub"]).put ["main", "sub", "a.yml"]
    "- template: /t.yml\n".toUTF8 none

/-- A repository with an empty directory. -/
def markedProject : FileTree :=
  (({} : FileTree).makeDirectories ["main", "sub"]).put ["main", ".git"] "".toUTF8 none

/-- The index loses the files of a directory that gets another name; and a repository that begins is
not noticed, neither where it changes what references lead to nor where another root is remembered
from before. -/
theorem losesSync_of_rename_and_of_repository :
    (indexed .ofRules folderProject ⟨"/main"⟩ { respectIgnore := false }).LosesSync folderProject
      .rename [.address ["main", "a"], .address ["main", "b"]]
        (folderProject.move ["main", "a"] ["main", "b"]) ∧
    (indexed .ofRules rootedProject ⟨"/main"⟩ { respectIgnore := false }).LosesSync rootedProject
      .create [.address ["main", ".git"]] (rootedProject.put ["main", ".git"] "".toUTF8 none) ∧
    { indexed .ofRules markedProject ⟨"/main"⟩ { respectIgnore := false } with
      memory :=
        { roots := .ofList [(.address ["main", "sub"], .address ["main", "sub"])] } }.LosesSync
        markedProject
      .create [.address ["main", "sub", "b.yml"]]
      (markedProject.put ["main", "sub", "b.yml"] "- template: /t.yml\n".toUTF8 none) := by
  refine ⟨?_, ?_, ?_⟩
  · have h : folderProject.WellFormed := by decide +kernel
    obtain ⟨hroot, hoptions, hsync, -⟩ :=
      indexed_spec h .ofRules ⟨"/main"⟩ { respectIgnore := false }
    have hmovable : folderProject.Movable ["main", "a"] ["main", "b"] :=
      .of_free h (by decide) (by decide +kernel) (by decide) (by decide) (by decide +kernel)
        (by decide +kernel) (by decide +kernel)
    refine ⟨h, by rw [hoptions], .renamed_address (by decide) (by decide) hmovable, ?_, hsync, ?_⟩
    · rw [hroot]
      decide +kernel
    · exact not_inSync_of_linkTexts_ne (by decide +kernel)
  · have h : rootedProject.WellFormed := by decide +kernel
    obtain ⟨hroot, hoptions, hsync, -⟩ :=
      indexed_spec h .ofRules ⟨"/main"⟩ { respectIgnore := false }
    refine ⟨h, by rw [hoptions],
      .written (.inl rfl) (Path.isAddress_address (by decide)) (by rfl), ?_, hsync, ?_⟩
    · rw [hroot]
      decide +kernel
    · exact not_inSync_of_linkTexts_ne (by decide +kernel)
  · have h : markedProject.WellFormed := by decide +kernel
    obtain ⟨hroot, hoptions, hsync, -⟩ :=
      indexed_spec h .ofRules ⟨"/main"⟩ { respectIgnore := false }
    refine ⟨h, by rw [hoptions],
      .written (.inl rfl) (Path.isAddress_address (by decide)) (by rfl), ?_,
      ⟨hsync.ready, hsync.snapshot⟩, ?_⟩
    · rw [hroot]
      decide +kernel
    · exact not_inSync_of_linkTexts_ne (by decide +kernel)

end Workspace

end TemplateAtlas
