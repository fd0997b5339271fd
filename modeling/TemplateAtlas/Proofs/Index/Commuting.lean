import TemplateAtlas.Proofs.Index.Consistency
import TemplateAtlas.Proofs.Index.Patch
import TemplateAtlas.Proofs.Index.Queue

/-!
# Changes of different files commute

A change is a list of patches of files at or below its path. Which files a deletion patches depends
on the snapshot, but not on what happens to files elsewhere (`filesUnder_putAll`). So changes whose
paths lie apart may be made in any order (`applyNow_comm`), and hence in the order of any
permutation (`foldl_eq_of_perm`). A change that is made twice is made once, unless files are indexed
below an indexed file (`applyNow_applyNow`).
-/

namespace TemplateAtlas

open Std Inquiry

/-! ### Paths apart -/

namespace Path

/-- Neither path lies at or below the other. -/
def Apart (p q : Path) : Prop :=
  p.startsWith q = false ∧ q.startsWith p = false

variable {p q f g : Path}

instance : Decidable (p.Apart q) := inferInstanceAs (Decidable (_ ∧ _))

theorem Apart.symm (h : p.Apart q) : q.Apart p := ⟨h.2, h.1⟩

theorem startsWith_eq_true_iff : p.startsWith q = true ↔ q.components <+: p.components :=
  List.isPrefixOf_iff_prefix

theorem startsWith_congr (h : (f == g) = true) (p : Path) : f.startsWith p = g.startsWith p := by
  rw [startsWith, startsWith, beq_iff.1 h]

theorem startsWith_self (p : Path) : p.startsWith p = true :=
  startsWith_eq_true_iff.2 List.prefix_rfl

/-- What lies below one of two paths that lie apart does not lie below the other. -/
theorem Apart.startsWith_eq_false (h : p.Apart q) (hf : f.startsWith p = true) :
    f.startsWith q = false := by
  refine Bool.eq_false_iff.2 fun hfq => ?_
  rw [startsWith_eq_true_iff] at hf hfq
  rcases List.prefix_or_prefix_of_prefix hf hfq with hpq | hqp
  · exact Bool.false_ne_true (h.2.symm.trans (startsWith_eq_true_iff.2 hpq))
  · exact Bool.false_ne_true (h.1.symm.trans (startsWith_eq_true_iff.2 hqp))

theorem Apart.beq_eq_false (h : p.Apart q) (hf : f.startsWith p = true)
    (hg : g.startsWith q = true) : (f == g) = false := by
  refine Bool.eq_false_iff.2 fun hfg => ?_
  rw [← startsWith_congr hfg, h.startsWith_eq_false hf] at hg
  cases hg

end Path

/-! ### Permutations -/

/-- Steps of which any two that are related commute, as long as the state is good, may be made in
any order. -/
theorem foldl_eq_of_perm {σ α : Type*} {step : σ → α → σ} {good : σ → Prop} {r : α → α → Prop}
    (hgood : ∀ s a, good s → good (step s a)) (hsymm : ∀ a b, r a b → r b a)
    (hcomm : ∀ s a b, good s → r a b → step (step s a) b = step (step s b) a)
    {l l' : List α} (hperm : l.Perm l') (hr : l.Pairwise r) {s : σ} (hs : good s) :
    l.foldl step s = l'.foldl step s := by
  induction hperm generalizing s with
  | nil => rfl
  | cons a _ ih => exact ih (List.pairwise_cons.1 hr).2 (hgood s a hs)
  | swap a b l =>
    have hba : r b a := (List.pairwise_cons.1 hr).1 a (by simp)
    rw [List.foldl_cons, List.foldl_cons, List.foldl_cons, List.foldl_cons, hcomm s b a hs hba]
  | trans hfirst _ ih₁ ih₂ =>
    rw [ih₁ hr hs]
    exact ih₂ ((hfirst.pairwise_iff fun {a b} => hsymm a b).1 hr) hs

/-! ### Lists of patches -/

/-- What happens to one file of a snapshot. -/
structure Patch where
  /-- The file. -/
  file : Path
  /-- Its references, unless it is taken away. -/
  refs? : Option (List IndexedReference)

/-- The references of the patch lead to paths in normal form. -/
def Patch.LeadsToNormal (patch : Patch) : Prop :=
  ∀ refs ∈ patch.refs?, Snapshot.LeadToNormal refs

namespace Snapshot

variable {s : Snapshot} {patches patches' : List Patch} {path : Path}

/-- The snapshot after several patches. -/
def putAll (s : Snapshot) (patches : List Patch) : Snapshot :=
  patches.foldl (fun s patch => s.put patch.file patch.refs?) s

theorem Regular.putAll (h : s.Regular) (hpatches : ∀ patch ∈ patches, patch.LeadsToNormal) :
    (s.putAll patches).Regular := by
  induction patches generalizing s with
  | nil => exact h
  | cons patch patches ih =>
    exact ih (h.put patch.file (hpatches patch (by simp))) fun other hother =>
      hpatches other (by simp [hother])

theorem Regular.putAll_put_comm (h : s.Regular) {patch : Patch} (hpatch : patch.LeadsToNormal)
    (hpatches : ∀ other ∈ patches, other.LeadsToNormal)
    (hapart : ∀ other ∈ patches, (other.file == patch.file) = false) :
    (s.putAll patches).put patch.file patch.refs? =
      (s.put patch.file patch.refs?).putAll patches := by
  induction patches generalizing s with
  | nil => rfl
  | cons other patches ih =>
    have hother : other.LeadsToNormal := hpatches other (by simp)
    have hcomm := h.put_comm (hapart other (by simp)) hother hpatch
    have hrest := ih (h.put other.file hother) (fun o ho => hpatches o (by simp [ho])) fun o ho =>
      hapart o (by simp [ho])
    rw [hcomm] at hrest
    exact hrest

/-- Lists of patches of different files may be made in any order. -/
theorem Regular.putAll_comm (h : s.Regular) (hpatches : ∀ patch ∈ patches, patch.LeadsToNormal)
    (hpatches' : ∀ patch ∈ patches', patch.LeadsToNormal)
    (hapart : ∀ patch ∈ patches, ∀ other ∈ patches', (patch.file == other.file) = false) :
    (s.putAll patches).putAll patches' = (s.putAll patches').putAll patches := by
  induction patches' generalizing s with
  | nil => rfl
  | cons other patches' ih =>
    have hother : other.LeadsToNormal := hpatches' other (by simp)
    have hcomm := h.putAll_put_comm hother hpatches fun patch hpatch =>
      hapart patch hpatch other (by simp)
    have hrest := ih (h.put other.file hother) (fun o ho => hpatches' o (by simp [ho]))
      fun patch hpatch o ho => hapart patch hpatch o (by simp [ho])
    rw [← hcomm] at hrest
    exact hrest

/-! ### The files of a deletion -/

/-- The files that the deletion of a path takes away. -/
def filesUnder (s : Snapshot) (path : Path) : List Path :=
  if s.files.contains path then [path] else s.files.toList.filter (·.startsWith path)

theorem removePath_eq_foldl (s : Snapshot) (path : Path) :
    s.removePath path = (s.filesUnder path).foldl removeFile s := by
  unfold removePath filesUnder
  split <;> rfl

theorem removePath_eq_putAll (s : Snapshot) (path : Path) :
    s.removePath path = s.putAll ((s.filesUnder path).map fun file => ⟨file, none⟩) := by
  rw [removePath_eq_foldl, putAll, List.foldl_map]
  rfl

theorem Regular.removePath (h : s.Regular) (path : Path) : (s.removePath path).Regular := by
  rw [removePath_eq_putAll]
  refine h.putAll fun patch hpatch => ?_
  obtain ⟨f, -, rfl⟩ := List.mem_map.1 hpatch
  intro refs hrefs
  cases hrefs

theorem startsWith_of_mem_filesUnder {f : Path} (h : f ∈ s.filesUnder path) :
    f.startsWith path = true := by
  unfold filesUnder at h
  split at h
  · rw [List.mem_singleton.1 h]
    exact path.startsWith_self
  · exact (List.mem_filter.1 h).2

/-- Patches elsewhere do not matter for the files at or below a path. -/
theorem filesUnder_put {file : Path} (h : file.startsWith path = false)
    (refs? : Option (List IndexedReference)) :
    (s.put file refs?).filesUnder path = s.filesUnder path := by
  have hne : ∀ k, k.startsWith path = true → compare file k ≠ .eq := by
    intro k hk heq
    rw [Path.startsWith_congr (LawfulBEqOrd.compare_eq_iff_beq.1 heq), hk] at h
    cases h
  have hcontains : SortedMap.contains (s.put file refs?).files path =
      SortedMap.contains s.files path := by
    rw [files_put, SortedMap.contains_alter_of_ne fun heq =>
      hne path path.startsWith_self (OrientedCmp.eq_symm heq)]
  have hbelow : (s.put file refs?).files.toList.filter (·.startsWith path) =
      s.files.toList.filter (·.startsWith path) := by
    refine eq_of_pairwise_lt ((SortedMap.pairwise_keys _).filter _)
      ((SortedMap.pairwise_keys _).filter _) fun k => ?_
    rw [List.mem_filter, List.mem_filter]
    refine and_congr_left fun hk => ?_
    rw [files_put, SortedSet.toList, SortedMap.mem_keys_alter_of_ne (hne k hk)]
    rfl
  rw [filesUnder, hcontains, hbelow, filesUnder]

theorem filesUnder_putAll (h : ∀ patch ∈ patches, patch.file.startsWith path = false) :
    (s.putAll patches).filesUnder path = s.filesUnder path := by
  induction patches generalizing s with
  | nil => rfl
  | cons patch patches ih =>
    rw [putAll, List.foldl_cons]
    exact (ih fun other hother => h other (by simp [hother])).trans
      (filesUnder_put (h patch (by simp)) patch.refs?)

theorem mem_files_foldl_removeFile {files : List Path} {k : Path} :
    k ∈ (files.foldl removeFile s).files.toList ↔
      k ∈ s.files.toList ∧ ∀ f ∈ files, compare f k ≠ .eq := by
  induction files generalizing s with
  | nil => simp
  | cons f files ih =>
    have hfirst : k ∈ (s.removeFile f).files.toList ↔ k ∈ s.files.toList ∧ compare f k ≠ .eq :=
      SortedMap.mem_keys_erase_iff
    rw [List.foldl_cons, ih, hfirst, List.forall_mem_cons, and_assoc]

/-- Where no file is indexed below another, a deletion leaves no file at or below its path. -/
theorem filesUnder_removePath
    (hsingle : ∀ p ∈ s.files.toList, ∀ q ∈ s.files.toList, q.startsWith p = true → (p == q) = true)
    (path : Path) : (s.removePath path).filesUnder path = [] := by
  have hgone : ∀ k ∈ (s.removePath path).files.toList, k.startsWith path = false := by
    intro k hk
    rw [removePath_eq_foldl, mem_files_foldl_removeFile] at hk
    obtain ⟨hmem, hkept⟩ := hk
    refine Bool.eq_false_iff.2 fun hbelow => ?_
    unfold filesUnder at hkept
    split at hkept
    next hcontains =>
      -- the path is an indexed file, and what is indexed below it is this file
      obtain ⟨k₀, hk₀, heq⟩ := SortedMap.contains_eq_true_iff.1 hcontains
      have hcomponents := Path.compare_eq_iff.1 heq
      have hself : (k₀ == k) = true :=
        hsingle k₀ hk₀ k hmem (by rwa [Path.startsWith, ← hcomponents])
      exact hkept path (by simp) (TransCmp.eq_trans heq (LawfulBEqOrd.compare_eq_iff_beq.2 hself))
    next => exact hkept k (List.mem_filter.2 ⟨hmem, hbelow⟩) ReflCmp.compare_self
  have hcontains : SortedMap.contains (s.removePath path).files path = false := by
    refine Bool.eq_false_iff.2 fun hyes => ?_
    obtain ⟨k, hk, heq⟩ := SortedMap.contains_eq_true_iff.1 hyes
    have hself := path.startsWith_self
    rw [Path.startsWith_congr (LawfulBEqOrd.compare_eq_iff_beq.1 heq), hgone k hk] at hself
    cases hself
  rw [filesUnder, hcontains, if_neg Bool.false_ne_true, List.filter_eq_nil_iff]
  intro k hk
  rw [hgone k hk]
  exact Bool.false_ne_true

end Snapshot

/-! ### Changes -/

/-- What the change does to files, as a view shows them. -/
def FileChange.patches (change : FileChange) (view : View) (s : Snapshot) : List Patch :=
  if change.kind = .deleted then (s.filesUnder change.path).map fun file => ⟨file, none⟩
  else [⟨change.path, some ((indexReferences change.path).answer view)⟩]

namespace Index

variable {s : Snapshot} {change other : FileChange} {view : View} {patch : Patch}

theorem answer_applyNow_eq_putAll (change : FileChange) (view : View) (s : Snapshot) :
    (applyNow change s).answer view = s.putAll (change.patches view s) := by
  unfold FileChange.patches
  split
  next hkind => rw [answer_applyNow_of_deleted hkind, Snapshot.removePath_eq_putAll]
  next hkind =>
    rw [answer_applyNow_of_not_deleted hkind]
    rfl

theorem startsWith_of_mem_patches (h : patch ∈ change.patches view s) :
    patch.file.startsWith change.path = true := by
  unfold FileChange.patches at h
  split at h
  · obtain ⟨f, hf, rfl⟩ := List.mem_map.1 h
    exact Snapshot.startsWith_of_mem_filesUnder hf
  · rw [List.mem_singleton.1 h]
    exact change.path.startsWith_self

theorem leadsToNormal_of_mem_patches (h : patch ∈ change.patches view s) : patch.LeadsToNormal := by
  unfold FileChange.patches at h
  split at h
  · obtain ⟨f, -, rfl⟩ := List.mem_map.1 h
    intro refs hrefs
    cases hrefs
  · rw [List.mem_singleton.1 h]
    rintro refs ⟨⟩
    exact fun _ => isNormal_of_mem_indexReferences

/-- What a change does does not depend on patches elsewhere. -/
theorem patches_putAll {patches : List Patch}
    (h : ∀ patch ∈ patches, patch.file.startsWith change.path = false) :
    change.patches view (s.putAll patches) = change.patches view s := by
  rw [FileChange.patches, Snapshot.filesUnder_putAll h, FileChange.patches]

theorem regular_applyNow (h : s.Regular) (change : FileChange) (view : View) :
    ((applyNow change s).answer view).Regular := by
  rw [answer_applyNow_eq_putAll]
  exact h.putAll fun _ => leadsToNormal_of_mem_patches

/-- Changes of paths that lie apart may be made in any order. -/
theorem applyNow_comm (h : s.Regular) (hapart : change.path.Apart other.path) :
    (applyNow other ((applyNow change s).answer view)).answer view =
      (applyNow change ((applyNow other s).answer view)).answer view := by
  have hfirst : ∀ patch ∈ change.patches view s, patch.file.startsWith other.path = false :=
    fun _ hpatch => hapart.startsWith_eq_false (startsWith_of_mem_patches hpatch)
  have hsecond : ∀ patch ∈ other.patches view s, patch.file.startsWith change.path = false :=
    fun _ hpatch => hapart.symm.startsWith_eq_false (startsWith_of_mem_patches hpatch)
  calc (applyNow other ((applyNow change s).answer view)).answer view
      = (s.putAll (change.patches view s)).putAll (other.patches view s) := by
        rw [answer_applyNow_eq_putAll, answer_applyNow_eq_putAll, patches_putAll hfirst]
    _ = (s.putAll (other.patches view s)).putAll (change.patches view s) := by
        refine h.putAll_comm (fun _ => leadsToNormal_of_mem_patches)
          (fun _ => leadsToNormal_of_mem_patches) ?_
        intro patch hpatch patch' hpatch'
        exact hapart.beq_eq_false (startsWith_of_mem_patches hpatch)
          (startsWith_of_mem_patches hpatch')
    _ = (applyNow change ((applyNow other s).answer view)).answer view := by
        rw [answer_applyNow_eq_putAll, answer_applyNow_eq_putAll, patches_putAll hsecond]

/-- Where no file is indexed below another, a change that is made twice is made once. -/
theorem applyNow_applyNow (h : s.Regular)
    (hsingle : ∀ p ∈ s.files.toList, ∀ q ∈ s.files.toList, q.startsWith p = true → (p == q) = true)
    (change : FileChange) (view : View) :
    (applyNow change ((applyNow change s).answer view)).answer view =
      (applyNow change s).answer view := by
  by_cases hkind : change.kind = .deleted
  · rw [answer_applyNow_of_deleted hkind, answer_applyNow_of_deleted hkind,
      (s.removePath change.path).removePath_eq_foldl, Snapshot.filesUnder_removePath hsingle]
    rfl
  · rw [answer_applyNow_of_not_deleted hkind, answer_applyNow_of_not_deleted hkind]
    refine @Snapshot.Regular.put_put s (some ((indexReferences change.path).answer view))
      h change.path ?_
    rintro refs ⟨⟩
    exact fun _ => isNormal_of_mem_indexReferences

/-! ### Everything that happens -/

theorem upheld_regular : Upheld Snapshot.Regular := by
  refine ⟨Snapshot.regular_empty, fun files => ?_, fun s h change => ?_⟩
  · have hfound :
        (each (fun file => return (file, ← indexReferences file)) files).Yields fun found =>
        ∀ e ∈ found, Snapshot.LeadToNormal e.2 :=
      Yields.each fun file _ => (yields_indexReferences file).bind fun _ hrefs => hrefs
    refine hfound.bind fun found hfound => Snapshot.regular_ofForward fun e he => ?_
    obtain ⟨e', he', heq⟩ := SortedMap.exists_of_find?_ofList (SortedMap.find?_of_mem he)
    exact heq ▸ hfound e' he'
  · have hput : ∀ refs, Snapshot.LeadToNormal refs → (s.setForward change.path refs).Regular := by
      intro refs hrefs
      exact @Snapshot.Regular.put s (some refs) h change.path (by rintro _ ⟨⟩; exact hrefs)
    unfold applyNow
    cases change.kind with
    | deleted => exact h.removePath change.path
    | changed => exact (yields_indexReferences change.path).bind hput
    | created => exact (yields_indexReferences change.path).bind hput

end Index

end TemplateAtlas
