import TemplateAtlas.Proofs.Corpus.Files
import TemplateAtlas.Proofs.Files.Write
import TemplateAtlas.Proofs.Index.Queue
import TemplateAtlas.Proofs.Workspace

/-!
# Changes that happen

A change happens, if the file that it names is written or what stands at its path is removed.
`Effect` says all that such a change does, to one file or to everything below a location: nothing
else differs (`Happens.effect`). So the change explains how the corpus becomes another
(`Effect.explains`), the index references of other files stay the same
(`Effect.indexReferences_eq`), and a memory that forgets the text of the path agrees with the files
again (`Effect.memory_agrees`).
-/

namespace TemplateAtlas

open Std Inquiry

namespace FileTree

variable {tree tree' : FileTree} {p : Path}

/-! ### Repositories -/

/-- The same directories hold the marker of a repository. -/
def SameRepositories (tree tree' : FileTree) : Prop :=
  ∀ place, (tree'.node? (place ++ [repositoryMarker])).isSome =
    (tree.node? (place ++ [repositoryMarker])).isSome

/-- Trees in which nothing has the name of the marker hold the same repositories. -/
theorem sameRepositories_of_forall_ne
    (h : ∀ q ∈ tree.nodes.keys ++ tree'.nodes.keys, q.getLast? ≠ some repositoryMarker) :
    SameRepositories tree tree' := by
  intro place
  have hnone : ∀ {t : FileTree}, (∀ q ∈ t.nodes.keys, q.getLast? ≠ some repositoryMarker) →
      (t.node? (place ++ [repositoryMarker])).isSome = false := by
    intro t ht
    refine Bool.eq_false_iff.2 fun hsome => ?_
    exact ht _ ((node?_isSome_iff (by simp)).1 hsome) List.getLast?_concat
  rw [hnone fun q hq => h q (List.mem_append_left _ hq), hnone fun q hq =>
    h q (List.mem_append_right _ hq)]

theorem isName_repositoryMarker : IsName repositoryMarker := by
  decide

theorem isRepositoryRoot_eq (h : tree.WellFormed) (h' : tree'.WellFormed)
    (hsame : SameRepositories tree tree') (hp : p.IsAddress) :
    tree'.isRepositoryRoot p = tree.isRepositoryRoot p := by
  obtain ⟨place, hplace, rfl⟩ := hp
  rw [isRepositoryRoot, isRepositoryRoot, Path.child_address hplace isName_repositoryMarker,
    Bool.eq_iff_iff, exists?_address_iff h (hplace.append isName_repositoryMarker),
    exists?_address_iff h' (hplace.append isName_repositoryMarker), hsame place]

/-- The nearest root of a repository above an address is the same. -/
theorem rootAbove_eq (h : tree.WellFormed) (h' : tree'.WellFormed)
    (hsame : SameRepositories tree tree') (hp : p.IsAddress) :
    tree'.rootAbove p = tree.rootAbove p := by
  have hfind : ∀ ps : List Path, (∀ q ∈ ps, q.IsAddress) →
      ps.find? tree'.isRepositoryRoot = ps.find? tree.isRepositoryRoot := by
    intro ps hps
    induction ps with
    | nil => rfl
    | cons q ps ih =>
      rw [List.find?_cons, List.find?_cons, isRepositoryRoot_eq h h' hsame (hps q (by simp)),
        ih fun q' hq' => hps q' (by simp [hq'])]
  rw [rootAbove, rootAbove, hfind _ fun q hq => hp.of_mem_ancestors hq]

/-- The file at an address is the same, if it is the same at the location. -/
theorem fileAt?_eq (h : tree.WellFormed) (h' : tree'.WellFormed) (hp : p.IsAddress)
    (hfile : ∀ v, tree'.node? p.place = some (.file v) ↔ tree.node? p.place = some (.file v)) :
    tree'.fileAt? p = tree.fileAt? p := by
  obtain ⟨place, hplace, rfl⟩ := hp
  rw [Path.place_address hplace] at hfile
  refine Option.ext fun v => ?_
  rw [fileAt?_address_eq_some_iff h hplace, fileAt?_address_eq_some_iff h' hplace, hfile]

/-- The index references of a file are the same, if the file and the root above it are the same. -/
theorem indexReferences_eq_of_rootAbove (h : tree.WellFormed) (h' : tree'.WellFormed)
    (hp : p.IsAddress) (hroot : tree'.rootAbove p.directory = tree.rootAbove p.directory)
    (hfile : ∀ v, tree'.node? p.place = some (.file v) ↔ tree.node? p.place = some (.file v)) :
    (indexReferences p).answer tree'.view = (indexReferences p).answer tree.view := by
  refine indexReferences_congr ?_ ?_
  · rw [view_text, view_text, fileAt?_eq h h' hp hfile]
  · rw [view_root, view_root, hroot]

theorem indexReferences_eq (h : tree.WellFormed) (h' : tree'.WellFormed)
    (hsame : SameRepositories tree tree') (hp : p.IsAddress)
    (hfile : ∀ v, tree'.node? p.place = some (.file v) ↔ tree.node? p.place = some (.file v)) :
    (indexReferences p).answer tree'.view = (indexReferences p).answer tree.view :=
  indexReferences_eq_of_rootAbove h h' hp (rootAbove_eq h h' hsame hp.directory) hfile

/-- What is remembered of repositories is true as long as they are the same. -/
theorem roots_agree {memo : RootMemo} (h : tree.WellFormed) (h' : tree'.WellFormed)
    (hsame : SameRepositories tree tree') (hmemo : memo.Agrees Path.IsAddress tree) :
    memo.Agrees Path.IsAddress tree' :=
  hmemo.of_rootAbove_eq fun _ hp => rootAbove_eq h h' hsame hp.directory

/-- A memory of texts and roots agrees with other files, if it serves a text only where the file is
the same. -/
theorem agrees_of_served {memory memory' : Memory} (h : tree.WellFormed) (h' : tree'.WellFormed)
    (hsame : SameRepositories tree tree')
    (hmemory : memory.Agrees Path.IsAddress Path.IsAddress tree)
    (hroots : memory'.roots = memory.roots)
    (hserved : ∀ q, q.IsAddress → ∀ v text, tree'.fileAt? q = some v → memory'.cache.fresh? q v =
      some text → tree.fileAt? q = some v ∧ memory.cache.fresh? q v = some text) :
    memory'.Agrees Path.IsAddress Path.IsAddress tree' := by
  constructor
  · intro q hq v text hfile hfresh
    obtain ⟨hfile, hfresh⟩ := hserved q hq v text hfile hfresh
    exact hmemory.cache q hq v text hfile hfresh
  · rw [hroots]
    exact roots_agree h h' hsame hmemory.roots

end FileTree

/-! ### What a change does -/

namespace FileChange

variable {change : FileChange} {tree tree' : FileTree}

/-- The change with the normal form of its path. -/
def normalize (change : FileChange) : FileChange :=
  { change with path := change.path.normalize }

theorem normalize_of_isAddress (hpath : change.path.IsAddress) : change.normalize = change := by
  rw [normalize, hpath.isNormal]

/-- The change has just happened to the files. -/
inductive Happens : FileChange → FileTree → FileTree → Prop where
  /-- A file is written, with any bytes and any time. -/
  | written {kind : ChangeKind} {p : Path} {content : ByteArray} {time? : Option Nat}
      {tree tree' : FileTree} :
    kind ≠ .deleted → p.isAbsolute = true → tree.write p content time? = .ok tree' →
      Happens ⟨kind, p⟩ tree tree'
  /-- A file is removed, or a directory with all that it holds. -/
  | removed {p : Path} {place : Location} {tree : FileTree} :
    p.isAbsolute = true → tree.locate p = .ok place → Happens ⟨.deleted, p⟩ tree (tree.remove place)

/-- All that a change does. -/
structure Effect (change : FileChange) (tree tree' : FileTree) : Prop where
  /-- The files stay well-formed. -/
  wellFormed : tree'.WellFormed
  /-- The path is an address. -/
  isAddress : change.path.IsAddress
  /-- A file that is written can be reached by its address. -/
  followable : change.kind ≠ .deleted → FileTree.Followable change.path.place
  /-- Where the change has a say, it tells whether there is a file. -/
  concerned : ∀ q, q.IsAddress → change.concerns q = true →
    ((∃ v, tree'.node? q.place = some (.file v)) ↔ change.kind ≠ .deleted)
  /-- Nothing happens elsewhere. -/
  other : ∀ q, q.IsAddress → change.concerns q = false → tree'.node? q.place = tree.node? q.place

theorem concerns_iff_place_eq (hkind : change.kind ≠ .deleted) (hpath : change.path.IsAddress)
    {q : Path} (hq : q.IsAddress) : change.concerns q = true ↔ q.place = change.path.place :=
  (concerns_iff_eq hkind hpath hq).trans (Path.IsAddress.place_inj hq hpath).symm

/-- A deletion has a say of all that lies at its location and below. -/
theorem concerns_iff_below (hkind : change.kind = .deleted) (hpath : change.path.IsAddress)
    {q : Path} (hq : q.IsAddress) : change.concerns q = true ↔ change.path.place <+: q.place := by
  rw [concerns_of_deleted hkind, CorpusOptions.startsWith_iff hpath hq]

theorem effect_of_written {kind : ChangeKind} {p : Path} {content : ByteArray} {time? : Option Nat}
    (h : tree.WellFormed) (hkind : kind ≠ .deleted) (habsolute : p.isAbsolute = true)
    (hwrite : tree.write p content time? = .ok tree') : Effect ⟨kind, p.normalize⟩ tree tree' := by
  obtain ⟨hwritable, rfl⟩ := FileTree.write_eq_ok habsolute hwrite
  have hplace := hwritable.isPlace
  have haddress : (Path.address p.place).IsAddress := Path.isAddress_address hplace
  rw [Path.normalize_of_isAbsolute habsolute]
  refine ⟨h.put hwritable content time?, haddress, fun _ => ?_, fun q hq hhere => ?_,
    fun q hq hsilent => ?_⟩
  · rw [Path.place_address hplace]
    exact hwritable.followable
  · rw [concerns_iff_place_eq hkind haddress hq, Path.place_address hplace] at hhere
    obtain ⟨stamp, hnode⟩ := FileTree.node?_put_self hwritable.ne_nil content time?
    rw [hhere]
    exact iff_of_true ⟨_, hnode⟩ hkind
  · refine FileTree.node?_put_of_ne content time? fun heq => ?_
    rw [(concerns_iff_place_eq hkind haddress hq).2 (by rw [heq, Path.place_address hplace])]
      at hsilent
    cases hsilent

theorem effect_of_removed {p : Path} (h : tree.WellFormed) (habsolute : p.isAbsolute = true) :
    Effect ⟨.deleted, p.normalize⟩ tree (tree.remove p.place) := by
  have hplace := Path.isPlace_place habsolute
  have haddress : (Path.address p.place).IsAddress := Path.isAddress_address hplace
  rw [Path.normalize_of_isAbsolute habsolute]
  refine ⟨h.remove p.place, haddress, fun hkind => absurd rfl hkind, fun q hq hhere => ?_,
    fun q hq hsilent => ?_⟩
  · rw [concerns_iff_below rfl haddress hq, Path.place_address hplace] at hhere
    refine iff_of_false ?_ fun hkind => hkind rfl
    rintro ⟨v, hnode⟩
    by_cases hnil : q.place = []
    · simp [hnil] at hnode
    · rw [FileTree.node?_remove tree p.place hnil, if_pos hhere] at hnode
      cases hnode
  · by_cases hnil : q.place = []
    · simp [hnil]
    · rw [FileTree.node?_remove tree p.place hnil, if_neg fun hbelow => ?_]
      rw [(concerns_iff_below rfl haddress hq).2 (by rwa [Path.place_address hplace])] at hsilent
      cases hsilent

theorem effect_of_removed_address {p : Path} (h : tree.WellFormed) (hp : p.IsAddress) :
    Effect ⟨.deleted, p⟩ tree (tree.remove p.place) := by
  have heffect := effect_of_removed h (Path.isAddress_iff.1 hp).1
  rwa [hp.isNormal] at heffect

/-- What a change does when it happens. -/
theorem Happens.effect (h : tree.WellFormed) (hchange : change.Happens tree tree') :
    change.normalize.Effect tree tree' := by
  cases hchange with
  | written hkind habsolute hwrite => exact effect_of_written h hkind habsolute hwrite
  | removed habsolute hlocate =>
    rw [FileTree.locate_eq_ok_of_isAbsolute habsolute hlocate]
    exact effect_of_removed h habsolute

namespace Effect

variable {q : Path}

/-- The index references of a file that the change does not concern are the same. -/
theorem indexReferences_eq (heffect : change.Effect tree tree') (h : tree.WellFormed)
    (hsame : tree.SameRepositories tree') (hq : q.IsAddress) (hsilent : change.concerns q = false) :
    (indexReferences q).answer tree'.view = (indexReferences q).answer tree.view :=
  FileTree.indexReferences_eq h heffect.wellFormed hsame hq fun v => by
    rw [heffect.other q hq hsilent]

/-- A memory that forgets the text of the path agrees with the files again. -/
theorem memory_agrees {memory : Memory} (heffect : change.Effect tree tree') (h : tree.WellFormed)
    (hsame : tree.SameRepositories tree')
    (hmemory : memory.Agrees Path.IsAddress Path.IsAddress tree) :
    Memory.Agrees Path.IsAddress Path.IsAddress tree'
      { memory with cache := memory.cache.invalidate change.path } := by
  refine FileTree.agrees_of_served h heffect.wellFormed hsame hmemory rfl
    fun q hq v text hfile hfresh => ?_
  rw [Cache.fresh?_invalidate] at hfresh
  split at hfresh
  · cases hfresh
  next hne =>
    refine ⟨?_, hfresh⟩
    cases hconcerns : change.concerns q with
    | false =>
      rw [← hfile]
      exact (FileTree.fileAt?_eq h heffect.wellFormed hq fun w => by
        rw [heffect.other q hq hconcerns]).symm
    | true =>
      -- a file where the change has a say is the file that was written
      obtain ⟨place, hplace, rfl⟩ := hq
      have hnode := ((FileTree.fileAt?_address_eq_some_iff heffect.wellFormed hplace).1 hfile).2
      have hkind : change.kind ≠ .deleted :=
        (heffect.concerned _ (Path.isAddress_address hplace) hconcerns).1
        ⟨v, by rw [Path.place_address hplace, hnode]⟩
      rw [concerns_of_not_deleted hkind] at hconcerns
      exact absurd (LawfulBEqOrd.compare_eq_iff_beq.2 hconcerns) hne

end Effect

end FileChange

/-! ### The corpus -/

namespace Workspace

variable {tree tree' : FileTree} {ws : Workspace} {change : FileChange} {q : Path}

theorem applyChange_eq (ws : Workspace) (tree : FileTree) (change : FileChange) :
    ws.applyChange tree change =
      if change.normalize.kind ≠ .deleted ∧ ws.accepts change.normalize.path = false then
        ws.forget change.normalize.path
      else ws.indexChange tree change.normalize := by
  unfold applyChange
  exact if_congr (by simp [FileChange.normalize]) rfl rfl

/-- As long as no ignore file counts, the corpus holds the files that the workspace accepts. -/
theorem mem_corpus_iff (h : tree.WellFormed) (hroot : ws.root.IsAddress)
    (hignore : ws.options.respectIgnore = false) (hq : q.IsAddress) : q ∈ ws.corpus tree ↔
      FileTree.Followable ws.root.place ∧ ws.accepts q = true ∧ ∃ v, tree.node? q.place =
        some (.file v) := by
  obtain ⟨top, htop, hroot⟩ := hroot
  obtain ⟨place, hplace, rfl⟩ := hq
  rw [corpus, accepts, hroot, CorpusOptions.mem_files_iff h htop hignore, Path.place_address htop,
    Path.place_address hplace]
  refine and_congr_right fun _ => ?_
  constructor
  · rintro ⟨place', v, heq, hnode, haccepts⟩
    rw [Path.address_inj hplace (h.isPlace_of_eq_some hnode) heq]
    exact ⟨heq ▸ haccepts, v, hnode⟩
  · rintro ⟨haccepts, v, hnode⟩
    exact ⟨place, v, rfl, hnode, haccepts⟩

/-- Nothing in the corpus lies below a file of the corpus. -/
theorem eq_of_startsWith (h : tree.WellFormed) (hroot : ws.root.IsAddress) {p : Path}
    (hp : p ∈ ws.corpus tree) (hq : q ∈ ws.corpus tree) (hbelow : q.startsWith p = true) :
    q = p := by
  obtain ⟨top, htop, hroot⟩ := hroot
  rw [corpus, hroot] at hp hq
  obtain ⟨above, v, rfl, habove, hfile⟩ := CorpusOptions.exists_of_mem_files h htop hp
  obtain ⟨place, w, rfl, hplace, hnode⟩ := CorpusOptions.exists_of_mem_files h htop hq
  obtain ⟨names, rfl⟩ := (CorpusOptions.startsWith_address_iff habove hplace).1 hbelow
  have hnil : names = [] := h.eq_nil_of_file hfile (by rw [hnode]; rfl)
  rw [hnil, List.append_nil]

/-- A root can be reached, if a path that it accepts can be reached. -/
theorem followable_root (hroot : ws.root.IsAddress) (hq : q.IsAddress)
    (haccepts : ws.accepts q = true) (hfollow : FileTree.Followable q.place) :
    FileTree.Followable ws.root.place := by
  obtain ⟨top, htop, hroot⟩ := hroot
  obtain ⟨place, hplace, rfl⟩ := hq
  rw [accepts, hroot] at haccepts
  obtain ⟨names, rfl⟩ := ((CorpusOptions.accepts_address_iff htop hplace).1 haccepts).1
  rw [hroot, Path.place_address htop]
  rw [Path.place_address hplace] at hfollow
  exact hfollow.of_append

end Workspace

namespace FileChange.Effect

variable {tree tree' : FileTree} {ws : Workspace} {change : FileChange} {q : Path}

/-- A change that reaches the index explains how the corpus becomes another. -/
theorem explains (heffect : change.Effect tree tree') (h : tree.WellFormed)
    (hroot : ws.root.IsAddress) (hignore : ws.options.respectIgnore = false)
    (hreach : change.kind ≠ .deleted → ws.accepts change.path = true) :
    change.Explains (· ∈ ws.corpus tree) (· ∈ ws.corpus tree') := by
  intro q hq
  beta_reduce
  rw [Workspace.mem_corpus_iff heffect.wellFormed hroot hignore hq]
  split
  next hsays =>
    rw [heffect.concerned q hq hsays]
    refine ⟨fun hmem => hmem.2.2, fun hkind => ?_⟩
    obtain rfl := (concerns_iff_eq hkind heffect.isAddress hq).1 hsays
    exact ⟨Workspace.followable_root hroot hq (hreach hkind) (heffect.followable hkind),
      hreach hkind, hkind⟩
  next hsilent => rw [heffect.other q hq (Bool.eq_false_iff.2 hsilent),
    Workspace.mem_corpus_iff h hroot hignore hq]

/-- A change that does not reach the index leaves the corpus as it is, and concerns none of it. -/
theorem corpus_of_not_accepted (heffect : change.Effect tree tree') (h : tree.WellFormed)
    (hroot : ws.root.IsAddress) (hignore : ws.options.respectIgnore = false)
    (hkind : change.kind ≠ .deleted) (haccepts : ws.accepts change.path = false) :
    (∀ q, q ∈ ws.corpus tree' ↔ q ∈ ws.corpus tree) ∧
      ∀ q ∈ ws.corpus tree, change.concerns q = false := by
  have hsilent : ∀ q, q.IsAddress → ws.accepts q = true → change.concerns q = false := by
    intro q hq hacc
    refine Bool.eq_false_iff.2 fun hhere => ?_
    rw [(concerns_iff_eq hkind heffect.isAddress hq).1 hhere, haccepts] at hacc
    cases hacc
  have hmem : ∀ q, q.IsAddress → (q ∈ ws.corpus tree' ↔ q ∈ ws.corpus tree) := by
    intro q hq
    rw [Workspace.mem_corpus_iff heffect.wellFormed hroot hignore hq,
      Workspace.mem_corpus_iff h hroot hignore hq]
    refine and_congr_right fun _ => and_congr_right fun hacc => ?_
    rw [heffect.other q hq (hsilent q hq hacc)]
  refine ⟨fun q => ⟨fun hq => ?_, fun hq => ?_⟩, fun q hq => ?_⟩
  · exact (hmem q (Workspace.isAddress_of_mem_corpus heffect.wellFormed hroot hq)).1 hq
  · exact (hmem q (Workspace.isAddress_of_mem_corpus h hroot hq)).2 hq
  · have hq' := Workspace.isAddress_of_mem_corpus h hroot hq
    exact hsilent q hq' ((Workspace.mem_corpus_iff h hroot hignore hq').1 hq).2.1

end FileChange.Effect

end TemplateAtlas
