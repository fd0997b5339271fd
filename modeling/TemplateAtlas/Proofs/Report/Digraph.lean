import TemplateAtlas.Proofs.Graph.Workspace
import TemplateAtlas.Report.Digraph

/-!
# References among the files of a snapshot

The files of a snapshot are different files, so among them files that are the same are equal
(`Snapshot.contains_iff_mem`). One refers to another if the other is among its successors
(`Snapshot.Refers`), and in a snapshot that reports a corpus this is what the files of the corpus
say (`Snapshot.Reports.refers_iff`).
-/

namespace TemplateAtlas

open Std Inquiry

namespace Snapshot

variable {s : Snapshot} {a b p : Path} {l : List Path}

/-- Does the first file of the snapshot refer to the second? -/
def Refers (s : Snapshot) (a b : Path) : Prop :=
  a ∈ s.files.toList ∧ b ∈ s.successors a

/-- The members of a set of paths are different paths. -/
theorem pairwise_toList (members : SortedSet Path) :
    members.toList.Pairwise fun p q => (p == q) = false :=
  (SortedMap.pairwise_keys members).imp Path.beq_eq_false_of_lt

theorem pairwise_files (s : Snapshot) : s.files.toList.Pairwise fun p q => (p == q) = false :=
  pairwise_toList s.files

theorem nodup_files (s : Snapshot) : s.files.toList.Nodup :=
  s.pairwise_files.imp fun hne heq => by rw [heq, BEq.rfl] at hne; cases hne

theorem mem_successors_iff :
    b ∈ s.successors a ↔ b ∈ s.files.toList ∧ ∃ r ∈ s.forwardTargets a, (r.target == b) = true := by
  rw [successors, List.mem_filter, List.any_eq_true]

theorem successors_subset (s : Snapshot) (a : Path) : s.successors a ⊆ s.files.toList :=
  fun _ hb => (mem_successors_iff.1 hb).1

theorem nodup_successors (s : Snapshot) (a : Path) : (s.successors a).Nodup :=
  s.nodup_files.filter _

theorem Refers.left_mem (h : s.Refers a b) : a ∈ s.files.toList :=
  h.1

theorem Refers.right_mem (h : s.Refers a b) : b ∈ s.files.toList :=
  s.successors_subset a h.2

/-- Files of the snapshot that are the same are equal. -/
theorem eq_of_beq (ha : a ∈ s.files.toList) (hb : b ∈ s.files.toList) (h : (a == b) = true) :
    a = b :=
  eq_of_beq_of_mem s.pairwise_files ha hb h

theorem contains_iff_mem (hl : l ⊆ s.files.toList) (hp : p ∈ s.files.toList) :
    l.contains p = true ↔ p ∈ l := by
  rw [List.contains_iff_exists_mem_beq]
  constructor
  · rintro ⟨q, hq, heq⟩
    rwa [eq_of_beq hp (hl hq) heq]
  · exact fun hmem => ⟨p, hmem, BEq.rfl⟩

/-- Different files of the snapshot are not the same either. -/
theorem pairwise_beq_of_nodup (hl : l ⊆ s.files.toList) (h : l.Nodup) :
    l.Pairwise fun p q => (p == q) = false :=
  List.Pairwise.imp_of_mem (fun hp hq hne => Bool.eq_false_iff.2 fun heq =>
    hne (eq_of_beq (hl hp) (hl hq) heq)) h

end Snapshot

/-! ### Corpora -/

section Reports

variable {s : Snapshot} {view : View} {corpus : List Path} {a b : Path}

/-- In a snapshot that reports a corpus, files refer to each other as they say. -/
theorem Snapshot.Reports.refers_iff (h : s.Reports view (· ∈ corpus))
    (hcorpus : ∀ p ∈ corpus, p.IsNormal) :
    s.Refers a b ↔ a ∈ corpus ∧ b ∈ corpus ∧
      ∃ o ∈ (outgoing a).answer view, o.target.path? = some b := by
  rw [Refers, mem_successors_iff, h.mem_files_iff hcorpus, h.mem_files_iff hcorpus]
  refine and_congr_right fun ha => and_congr_right fun hb => ?_
  have htargets : s.forwardTargets a = ((outgoing a).answer view).filterMap Outgoing.indexed? := by
    rw [forwardTargets, (h.forward a (hcorpus a ha) _).2 ⟨ha, rfl⟩, Option.getD_some,
      answer_indexReferences]
  rw [htargets, any_filterMap_indexed?]
  refine exists_congr fun o => and_congr_right fun ho => ?_
  cases hpath : o.target.path? with
  | none => exact iff_of_false (by simp) (by simp)
  | some path =>
    rw [Option.some_beq_some, Option.some.injEq]
    have hnormal := isNormal_of_mem_outgoing ho hpath
    exact ⟨fun heq => hnormal.eq (hcorpus b hb) (Path.beq_iff.1 heq), fun heq => heq ▸ BEq.rfl⟩

end Reports

namespace Workspace

variable {tree : FileTree}

/-- Does the first file of the corpus have a reference to the second? -/
def CorpusRefers (ws : Workspace) (tree : FileTree) (a b : Path) : Prop :=
  a ∈ ws.corpus tree ∧ b ∈ ws.corpus tree ∧ ∃ o ∈ (outgoing a).answer tree.view,
    o.target.path? = some b

/-- The snapshot with which a fresh workspace answers has the files of the corpus, and their
references. -/
theorem snapshot_ensureIndex {ws : Workspace} {reader : IgnoreReader} {root : Path}
    {options : CorpusOptions} (h : tree.WellFormed) (hws : ws = new reader tree root options) :
    (ws.ensureIndex tree).index.snapshot.files.toList = ws.corpus tree ∧
      (ws.ensureIndex tree).index.snapshot.Refers = ws.CorpusRefers tree := by
  have hroot : ws.root.IsAddress := hws ▸ isAddress_root_new reader tree root options
  have hcorpus : ∀ p ∈ ws.corpus tree, p.IsNormal :=
    fun p hp => (isAddress_of_mem_corpus h hroot hp).isNormal
  have hempty : ws.memory.Agrees (fun _ => True) Path.IsNormal tree :=
    hws ▸ Memory.agrees_empty _ _ tree
  have hensure : ws.ensureIndex tree = (ws.buildIndex tree).2 := by
    subst hws
    rfl
  obtain ⟨memory, -, hbuild⟩ := buildIndex_eq h hroot hempty (by subst hws; rfl)
  have hreports := Snapshot.reports_indexFiles hcorpus tree.view
  rw [hensure, hbuild]
  exact ⟨hreports.files_eq hcorpus (CorpusOptions.pairwise_files h hroot),
    funext fun a => funext fun b => propext (hreports.refers_iff hcorpus)⟩

end Workspace

end TemplateAtlas
