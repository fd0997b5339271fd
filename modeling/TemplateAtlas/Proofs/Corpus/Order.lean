import TemplateAtlas.Proofs.Corpus.Change
import TemplateAtlas.Proofs.Index.Commuting

/-!
# Changes in any order

A workspace reads a changed file anew, and finds the root of its repository as it remembers it. So
as long as the files stay as they are, every change has one effect on the snapshot, whatever else
was changed before (`snapshot_applyChange`): either none, or that of the change at one view of the
files. Changes of paths that lie apart may then come in any order, and a change that comes twice has
come once (`applyChange_in_any_order`).
-/

namespace TemplateAtlas

open Std Inquiry

namespace Workspace

variable {tree : FileTree} {ws ws' : Workspace} {view : View} {change : FileChange}

/-! ### The effect of one change -/

/-- The view shows the files as they are, and knows the roots that the workspace would find. -/
structure SeenBy (view : View) (tree : FileTree) (ws : Workspace) : Prop where
  /-- The files are as they are. -/
  files : view.SameFiles tree
  /-- The roots are those that the workspace would find. -/
  root : ∀ p, p.IsNormal → view.root p = (ws.memory.roots.root tree p).1

theorem seenBy_viewWith (tree : FileTree) (ws : Workspace) :
    SeenBy (tree.viewWith ws.memory.roots Path.normalize) tree ws :=
  ⟨tree.sameFiles_viewWith _ _, fun _ hp => FileTree.root_viewWith_of_isNormal hp⟩

/-- Does the change reach the snapshot? -/
def reaches (ws : Workspace) (change : FileChange) : Bool :=
  ws.index.ready && (change.kind == .deleted || ws.accepts change.path)

/-- What the change makes of a snapshot. -/
def patched (ws : Workspace) (view : View) (s : Snapshot) (change : FileChange) : Snapshot :=
  if ws.reaches change.normalize then (Index.applyNow change.normalize s).answer view else s

/-- The index hears of the change with what was read of its path forgotten, so it reads the file as
it is. -/
theorem run_apply_forget (hview : SeenBy view tree ws) (hpath : change.path.IsNormal) :
    ((ws.index.apply change).run tree (ws.forget change.path).memory).1 =
      (ws.index.apply change).answer view := by
  have hcache : (ws.forget change.path).memory.cache.Agrees (· = change.path) tree := by
    rintro p rfl v text - hfresh
    rw [forget, Cache.fresh?_invalidate, if_pos ReflCmp.compare_self] at hfresh
    cases hfresh
  have hasks : (ws.index.apply change).Asks (· = change.path) (· = change.path) := by
    apply Index.asks_apply
    exact ⟨rfl, rfl⟩
  exact run_fst_of_root hview.files hcache hasks (hview.root _ hpath)

/-- What a change makes of the snapshot. -/
theorem snapshot_applyChange (hview : SeenBy view tree ws) (change : FileChange) :
    (ws.applyChange tree change).index.snapshot = ws.patched view ws.index.snapshot change := by
  have hnormal : change.normalize.path.IsNormal := Path.isNormal_normalize _
  rw [applyChange_eq, patched, reaches]
  by_cases houtside : change.normalize.kind ≠ .deleted ∧ ws.accepts change.normalize.path = false
  · rw [if_pos houtside, beq_eq_false_iff_ne.2 houtside.1, houtside.2, Bool.or_false,
      Bool.and_false, if_neg Bool.false_ne_true]
    rfl
  · have hinside : (change.normalize.kind == .deleted || ws.accepts change.normalize.path) =
        true := by
      rw [not_and_or, not_not, Bool.not_eq_false] at houtside
      rwa [Bool.or_eq_true, beq_iff_eq]
    rw [if_neg houtside, indexChange_eq_run, hinside, Bool.and_true]
    dsimp only
    rw [run_apply_forget hview hnormal, Index.apply_eq]
    cases ws.index.ready with
    | true => rw [if_pos rfl, if_pos rfl, answer_bind, answer_pure]
    | false => rfl

/-- The workspaces have the same root and options, are ready alike, and would find the same
roots. -/
structure Alike (tree : FileTree) (ws ws' : Workspace) : Prop where
  /-- The root directories are the same. -/
  root : ws'.root = ws.root
  /-- The options are the same. -/
  options : ws'.options = ws.options
  /-- Both have a snapshot, or none has. -/
  ready : ws'.index.ready = ws.index.ready
  /-- The roots that are found are the same. -/
  roots : ∀ p, p.IsNormal → (ws'.memory.roots.root tree p).1 = (ws.memory.roots.root tree p).1

theorem Alike.seenBy (h : Alike tree ws ws') (hview : SeenBy view tree ws) : SeenBy view tree ws' :=
  ⟨hview.files, fun p hp => (hview.root p hp).trans (h.roots p hp).symm⟩

theorem Alike.patched (h : Alike tree ws ws') : ws'.patched view = ws.patched view := by
  funext s change
  rw [Workspace.patched, reaches, accepts, h.root, h.options, h.ready]
  rfl

/-- A change leaves all but the snapshot and the texts as it was. -/
theorem alike_applyChange (ws : Workspace) (tree : FileTree) (change : FileChange) :
    Alike tree ws (ws.applyChange tree change) := by
  rw [applyChange_eq]
  split
  · exact ⟨rfl, rfl, rfl, fun _ _ => rfl⟩
  · have hnormal : change.normalize.path.IsNormal := Path.isNormal_normalize _
    have hasks : (ws.index.apply change.normalize).Asks (fun _ => True) Path.IsNormal :=
      Index.asks_apply ⟨trivial, hnormal⟩ ws.index
    obtain ⟨snapshot, hindex⟩ := index_indexChange ws tree change.normalize
    exact ⟨rfl, rfl, by rw [hindex], fun p hp => root_run_of_isNormal hp hasks⟩

/-- Changes one after the other make of the snapshot what each of them makes at one view of the
files. -/
theorem snapshot_foldl_applyChange (hview : SeenBy view tree ws) (changes : List FileChange) :
    (changes.foldl (fun ws change => ws.applyChange tree change) ws).index.snapshot =
      changes.foldl (ws.patched view) ws.index.snapshot := by
  induction changes generalizing ws with
  | nil => rfl
  | cons change changes ih =>
    have halike := alike_applyChange ws tree change
    rw [List.foldl_cons, List.foldl_cons, ih (halike.seenBy hview), halike.patched,
      snapshot_applyChange hview]

/-! ### Many changes -/

theorem regular_patched {s : Snapshot} (h : s.Regular) (ws : Workspace) (view : View)
    (change : FileChange) : (ws.patched view s change).Regular := by
  unfold patched
  split
  · exact Index.regular_applyNow h _ view
  · exact h

theorem patched_comm {s : Snapshot} (h : s.Regular) (ws : Workspace) (view : View)
    {change other : FileChange} (hapart : change.path.normalize.Apart other.path.normalize) :
    ws.patched view (ws.patched view s change) other =
      ws.patched view (ws.patched view s other) change := by
  unfold patched
  split
  · split
    · exact Index.applyNow_comm h hapart
    · rfl
  · rfl

theorem patched_patched {s : Snapshot} (h : s.Regular)
    (hsingle : ∀ p ∈ s.files.toList, ∀ q ∈ s.files.toList, q.startsWith p = true → (p == q) = true)
    (ws : Workspace) (view : View) (change : FileChange) :
    ws.patched view (ws.patched view s change) change = ws.patched view s change := by
  unfold patched
  split
  · exact Index.applyNow_applyNow h hsingle _ view
  · rfl

/-- Whatever has happened to the index of a workspace, and whatever it remembers of the files: as
long as the files stay as they are, changes whose paths lie apart lead to one snapshot in whichever
order they come; and where no file is indexed below another, a change that comes twice leads to the
snapshot that it leads to when it comes once. -/
theorem applyChange_in_any_order (events : List Index.Event) {ws : Workspace}
    (hevents : ws.index = events.foldl Index.after {}) (tree : FileTree) :
    (∀ changes changes' : List FileChange, changes.Perm changes' →
      (changes.Pairwise fun change other => change.path.normalize.Apart other.path.normalize) →
      (changes.foldl (fun ws change => ws.applyChange tree change) ws).index.snapshot =
        (changes'.foldl (fun ws change => ws.applyChange tree change) ws).index.snapshot) ∧
    ((∀ p ∈ ws.index.snapshot.files.toList, ∀ q ∈ ws.index.snapshot.files.toList,
        q.startsWith p = true → (p == q) = true) →
      ∀ change, ((ws.applyChange tree change).applyChange tree change).index.snapshot =
        (ws.applyChange tree change).index.snapshot) := by
  have hregular : ws.index.snapshot.Regular := hevents ▸ Index.upheld_regular.foldl_after events
  have hview := seenBy_viewWith tree ws
  constructor
  · intro changes changes' hperm hapart
    have hgood : ∀ (s : Snapshot) (change : FileChange), s.Regular →
        (ws.patched (tree.viewWith ws.memory.roots Path.normalize) s change).Regular :=
          fun _ change h => regular_patched h ws _ change
    have hcomm : ∀ (s : Snapshot) (change other : FileChange), s.Regular →
        change.path.normalize.Apart other.path.normalize →
        ws.patched (tree.viewWith ws.memory.roots Path.normalize)
          (ws.patched (tree.viewWith ws.memory.roots Path.normalize) s change) other =
          ws.patched (tree.viewWith ws.memory.roots Path.normalize)
            (ws.patched (tree.viewWith ws.memory.roots Path.normalize) s other) change :=
      fun _ _ _ h => patched_comm h ws _
    rw [snapshot_foldl_applyChange hview, snapshot_foldl_applyChange hview]
    exact foldl_eq_of_perm hgood (fun _ _ h => h.symm) hcomm hperm hapart hregular
  · intro hsingle change
    have halike := alike_applyChange ws tree change
    rw [snapshot_applyChange (halike.seenBy hview), halike.patched, snapshot_applyChange hview]
    exact patched_patched hregular hsingle ws _ change

/-- A file is read again and a directory deleted, in both orders. Of the two callers of a target one
is left. -/
theorem applyChange_in_both_orders :
    let tree : FileTree :=
      .put (.put (.makeDirectories {} ["p", "d"]) ["p", "a.yml"] "- template: t.yml".toUTF8 none)
      ["p", "d", "b.yml"] "- template: ../t.yml".toUTF8 none
    let events := [Index.Event.begins, .ends 1 [⟨"/p/a.yml"⟩, ⟨"/p/d/b.yml"⟩] tree {}]
    let ws : Workspace :=
      { root := ⟨"/p"⟩, options := {}, reader := .ofRules, index := events.foldl Index.after {} }
    let snapshot := fun changes : List FileChange =>
      (changes.foldl (fun ws change => ws.applyChange tree change) ws).index.snapshot
    let callers : List FileChange → List RawText := fun changes =>
      ((snapshot changes).directCallers ⟨"/p/t.yml"⟩).map Path.text
    let renewed : FileChange := ⟨.changed, ⟨"/p/./a.yml"⟩⟩
    let gone : FileChange := ⟨.deleted, ⟨"/p/d"⟩⟩
    ws.index.ready = true ∧ ws.index.inFlight = false ∧
      renewed.path.normalize.Apart gone.path.normalize ∧
      snapshot [renewed, gone] = snapshot [gone, renewed] ∧ snapshot [gone, gone] =
        snapshot [gone] ∧
      callers [] = (["/p/a.yml", "/p/d/b.yml"] : List RawText) ∧
      callers [renewed, gone] = (["/p/a.yml"] : List RawText) := by
  intro tree events ws snapshot callers renewed gone
  have hevents : ws.index = events.foldl Index.after {} := by
    dsimp only [ws]
  have hapart : renewed.path.normalize.Apart gone.path.normalize := by decide +kernel
  obtain ⟨horders, htwice⟩ := applyChange_in_any_order events hevents tree
  refine ⟨by decide +kernel, by decide +kernel, hapart, ?_,
    ?_, by decide +kernel, by decide +kernel⟩
  · exact horders _ _ (.swap _ _ _) (List.pairwise_pair.2 hapart)
  · have hsame := htwice (by decide +kernel) gone
    simpa only [snapshot, List.foldl_cons, List.foldl_nil] using hsame

end Workspace

end TemplateAtlas
