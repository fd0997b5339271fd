import TemplateAtlas.Proofs.Corpus.Change
import TemplateAtlas.Proofs.Files.Move

/-!
# Moves and the corpus

A file that moves is removed from where it was and written where it goes
(`FileChange.effect_of_moved`). When a directory moves, the corpus elsewhere is what the removal of
the directory leaves (`Workspace.mem_corpus_remove_iff`).
-/

namespace TemplateAtlas

open Inquiry

variable {tree tree' : FileTree} {ws : Workspace} {source : Location} {p q c : Path}

/-- A file that moves is written at the target, once it is removed from where it was. -/
theorem FileChange.effect_of_moved (h : tree.WellFormed) (hq : q.IsAddress)
    (hmovable : tree.Movable source q.place) {v : FileVersion}
    (hfile : tree.node? source = some (.file v)) :
    Effect ⟨.created, q⟩ (tree.remove source) (tree.move source q.place) := by
  have hkind : ChangeKind.created ≠ .deleted := by decide
  have hconcerns : ∀ c, c.IsAddress → (concerns ⟨.created, q⟩ c = true ↔ c.place = q.place) :=
    fun c hc => concerns_iff_place_eq hkind hq hc
  refine ⟨h.move hmovable, hq, fun _ => hmovable.followable, fun c hc hhere => ?_,
    fun c hc hsilent => ?_⟩
  · rw [(hconcerns c hc).1 hhere, hmovable.node?_move_target h, hfile]
    exact iff_of_true ⟨v, rfl⟩ hkind
  · have hne : c.place ≠ q.place := by
      rw [Ne, ← hconcerns c hc, hsilent]
      exact Bool.false_ne_true
    by_cases hbelow : q.place <+: c.place
    · -- nothing lies below a file, and nothing gave way to it there
      obtain ⟨names, hnames⟩ := hbelow
      have hnil : names ≠ [] := by
        rintro rfl
        exact hne (by rw [← hnames, List.append_nil])
      have hsource : tree.node? (source ++ names) = none := by
        by_contra hsome
        exact hnil (h.eq_nil_of_file hfile (Option.isSome_iff_ne_none.2 hsome))
      rw [← hnames, FileTree.node?_move h hmovable.ne_nil (by simp [hnil]),
        if_pos (List.prefix_append ..), List.drop_left, hsource,
        hmovable.node?_remove_append h hnil]
    · exact FileTree.node?_move_of_not_below h hmovable.ne_nil hbelow

/-- The references of a file that a removal leaves are the same, if the root above it is the
same. -/
theorem Workspace.indexReferences_eq_of_remove (h : tree.WellFormed) (h' : tree'.WellFormed)
    (hroot : ws.root.IsAddress) (hignore : ws.options.respectIgnore = false)
    (hc : c ∈ ws.corpus tree') (hnode : tree'.node? c.place = (tree.remove source).node? c.place)
    (hsame : tree'.rootAbove c.directory = tree.rootAbove c.directory) :
    (indexReferences c).answer tree'.view = (indexReferences c).answer tree.view := by
  have haddress := isAddress_of_mem_corpus h' hroot hc
  obtain ⟨-, -, v, hfile⟩ := (mem_corpus_iff h' hroot hignore haddress).1 hc
  have hbefore := FileTree.node?_of_remove (hnode ▸ hfile)
  exact FileTree.indexReferences_eq_of_rootAbove h h' haddress hsame fun w => by rw [hfile, hbefore]

/-- When a directory moves, the files of the corpus elsewhere are those that are left without it. -/
theorem Workspace.mem_corpus_remove_iff (h : tree.WellFormed) (hroot : ws.root.IsAddress)
    (hignore : ws.options.respectIgnore = false) (hq : q.IsAddress)
    (hmovable : tree.Movable source q.place) (hdirectory : tree.node? source = some .directory) :
    c ∈ ws.corpus (tree.remove source) ↔ c ∈ ws.corpus (tree.move source q.place) ∧
      c.startsWith q = false := by
  have h₁ := h.remove source
  have h₂ := h.move hmovable
  by_cases hc : c.IsAddress
  swap
  · exact iff_of_false (fun hmem => hc (isAddress_of_mem_corpus h₁ hroot hmem))
      fun hmem => hc (isAddress_of_mem_corpus h₂ hroot hmem.1)
  rw [mem_corpus_iff h₁ hroot hignore hc, mem_corpus_iff h₂ hroot hignore hc]
  by_cases hbelow : q.place <+: c.place
  · refine iff_of_false ?_ fun hmem => ?_
    · rintro ⟨-, -, v, hfile⟩
      obtain ⟨names, hnames⟩ := hbelow
      by_cases hnil : names = []
      · rw [← hnames, hnil, List.append_nil,
          FileTree.node?_remove tree source (hmovable.target_ne_nil h),
          if_neg hmovable.apart] at hfile
        exact (hmovable.ofDirectory hdirectory).1 v hfile
      · rw [← hnames, hmovable.node?_remove_append h hnil] at hfile
        cases hfile
    · rw [(CorpusOptions.startsWith_iff hq hc).2 hbelow] at hmem
      exact Bool.false_ne_true hmem.2.symm
  · rw [FileTree.node?_move_of_not_below h hmovable.ne_nil hbelow]
    have hno : c.startsWith q = false :=
      Bool.eq_false_iff.2 (mt (CorpusOptions.startsWith_iff hq hc).1 hbelow)
    simp only [hno, and_true]

end TemplateAtlas
