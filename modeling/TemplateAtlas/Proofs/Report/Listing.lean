import TemplateAtlas.Corpus.Ignore
import TemplateAtlas.Proofs.Graph.Outgoing
import TemplateAtlas.Proofs.Report.Order
import TemplateAtlas.Proofs.Template.References
import TemplateAtlas.Report.Listing
import TemplateAtlas.Workspace

/-!
# The listing of references loses none

The rows of a file are found in two passes, one for the references with expression syntax and one
for those that can be followed, and are sorted by their lines. A reference belongs to exactly one of
the passes unless it is blank, and then to neither (`rowOf?_eq_none_iff`). Since a line makes one
reference at most, the sorted rows are the rows of the references in their order
(`answer_listReferences`), whatever the memory that the files are read through
(`Workspace.listing_of_references`).
-/

namespace TemplateAtlas

open Inquiry TemplateAtlas.Template TemplateAtlas.Text

variable {view : View} {file : Path} {text : String} {r : TemplateReference}

/-! ### What a row says -/

/-- A reference that is made of blanks, which only quotes can make. -/
def Template.TemplateReference.isBlank (r : TemplateReference) : Bool :=
  (trim r.raw.toList).isEmpty

/-- What the status of a reference with this text says of the files and of the aliases that are
declared. -/
def ReferenceStatus.Holds (isFile : Path → Bool) (aliases : AliasTable) (raw : String) :
    ReferenceStatus → Prop
  | resolved path _ => isFile path = true
  | missing path _ => isFile path = false
  | unknownAlias name => foreignAlias? raw = some name ∧ aliases.find? name = none
  | runtimeExpression => Template.isRuntimeExpression raw.toList = true

/-- The row reports the reference, where those that can be followed are the found ones: it says that
the reference has expression syntax, if it has, and otherwise where the one that was found for it
ends. -/
structure ReferenceRow.Reports (found : List Outgoing) (r : TemplateReference)
    (row : ReferenceRow) : Prop where
  /-- The row has the line of the reference. -/
  line : row.line = r.line
  /-- The row has the text of the reference. -/
  raw : row.raw = r.raw
  /-- The row says that the reference is known only when the pipeline runs, if that is so. -/
  runtime : row.status = .runtimeExpression ↔ r.isRuntimeExpression = true
  /-- A reference with expression syntax is not followed. -/
  unfollowed : r.isRuntimeExpression = true → ∀ o ∈ found, o.reference ≠ r
  /-- Any other reference is followed once, and the row says where it ends. -/
  followed : r.isRuntimeExpression = false →
    ∃ o ∈ found, o.reference = r ∧ row.status = o.target.status ∧
      ∀ o' ∈ found, o'.reference = r → o' = o

/-! ### The row of one reference -/

/-- The row of a reference. -/
def rowOf? (view : View) (file : Path) (aliases : AliasTable) (r : TemplateReference) :
    Option ReferenceRow :=
  if r.isRuntimeExpression then some ⟨r.line, r.raw, .runtimeExpression⟩
  else ((outgoingOf file aliases r).answer view).map Outgoing.row

/-- Blanks hold no expression. -/
theorem isRuntimeExpression_of_isBlank (h : r.isBlank = true) : r.isRuntimeExpression = false := by
  obtain ⟨front, back, hfront, hback, hraw⟩ := exists_eq_append_trim_append r.raw.toList
  rw [List.isEmpty_iff.1 h] at hraw
  have hdollar : '$' ∉ r.raw.toList := by
    rw [hraw]
    intro hmem
    rcases List.mem_append.1 hmem with hmem | hmem
    · exact absurd (hfront _ hmem) (by decide)
    · exact absurd (hback _ hmem) (by decide)
  have hnone : ∀ rest, occursIn ('$' :: rest) r.raw.toList = false := fun rest =>
    occursIn_eq_false List.mem_cons_self hdollar
  rw [TemplateReference.isRuntimeExpression, Template.isRuntimeExpression, hnone, hnone, hnone]
  rfl

/-- A reference has a row unless it is blank. -/
theorem rowOf?_eq_none_iff {aliases : AliasTable} :
    rowOf? view file aliases r = none ↔ r.isBlank = true := by
  unfold rowOf?
  split
  next hruntime =>
    refine iff_of_false (by simp) fun hblank => ?_
    rw [isRuntimeExpression_of_isBlank hblank] at hruntime
    cases hruntime
  next hruntime =>
    rw [Option.map_eq_none_iff, answer_outgoingOf, if_neg hruntime, Option.map_eq_none_iff,
      answer_resolve_eq_none_iff]
    rfl

/-- The references that can be followed are those that are found one by one. -/
theorem mem_answer_outgoing_iff (htext : view.text file = some text) {o : Outgoing} :
    o ∈ (outgoing file).answer view ↔
      o.reference ∈ references text ∧
        (outgoingOf file (repositoryAliases text) o.reference).answer view = some o := by
  rw [answer_outgoing, htext, List.mem_filterMap]
  constructor
  · rintro ⟨r, hr, ho⟩
    obtain rfl := reference_of_answer_outgoingOf ho
    exact ⟨hr, ho⟩
  · rintro ⟨hr, ho⟩
    exact ⟨o.reference, hr, ho⟩

/-- The row of a reference reports it. -/
theorem reports_rowOf? (htext : view.text file = some text) (hr : r ∈ references text)
    {row : ReferenceRow} (h : rowOf? view file (repositoryAliases text) r = some row) :
    row.Reports ((outgoing file).answer view) r := by
  have hfound : ∀ o ∈ (outgoing file).answer view, o.reference = r →
      (outgoingOf file (repositoryAliases text) r).answer view = some o := by
    rintro o ho rfl
    exact ((mem_answer_outgoing_iff htext).1 ho).2
  unfold rowOf? at h
  split at h
  next hruntime =>
    obtain rfl := Option.some.inj h
    refine ⟨rfl, rfl, iff_of_true rfl hruntime, fun _ o ho heq => ?_, fun hfalse => by
      simp [hruntime] at hfalse⟩
    have := hfound o ho heq
    rw [answer_outgoingOf, if_pos hruntime] at this
    cases this
  next hruntime =>
    obtain ⟨o, ho, rfl⟩ := Option.map_eq_some_iff.1 h
    obtain rfl := reference_of_answer_outgoingOf ho
    refine ⟨rfl, rfl, iff_of_false ?_ hruntime, fun htrue => absurd htrue hruntime, fun _ => ?_⟩
    · show o.target.status ≠ _
      cases o.target <;> exact fun hstatus => by cases hstatus
    · refine ⟨o, (mem_answer_outgoing_iff htext).2 ⟨hr, ho⟩, rfl, rfl, fun o' ho' heq => ?_⟩
      exact Option.some.inj ((hfound o' ho' heq).symm.trans ho)

/-- What the row of a reference says is so. -/
theorem holds_rowOf? {aliases : AliasTable} {row : ReferenceRow}
    (h : rowOf? view file aliases r = some row) : row.status.Holds view.isFile aliases r.raw := by
  unfold rowOf? at h
  split at h
  next hruntime =>
    obtain rfl := Option.some.inj h
    exact hruntime
  next hruntime =>
    obtain ⟨o, ho, rfl⟩ := Option.map_eq_some_iff.1 h
    rw [answer_outgoingOf, if_neg hruntime] at ho
    obtain ⟨resolved, hresolved, rfl⟩ := Option.map_eq_some_iff.1 ho
    cases resolved with
    | unknownAlias name => exact undeclared_of_answer_resolve hresolved
    | path target repository? =>
      show (Target.status _).Holds _ _ _
      dsimp only
      rw [answer_targetOf_path]
      split
      next hfile => exact hfile
      next hfile => exact Bool.eq_false_iff.2 hfile

/-! ### The rows of a file -/

/-- What is kept of a list and what is made of it go together, if what is kept makes something and
the rest does not. -/
theorem forall₂_filter_filterMap {α β : Type} {R : α → β → Prop} {keep : α → Bool}
    {f : α → Option β} {l : List α} (hkeep : ∀ a ∈ l, ∀ b, f a = some b → R a b)
    (hdrop : ∀ a ∈ l, f a = none ↔ keep a = false) :
    List.Forall₂ R (l.filter keep) (l.filterMap f) := by
  induction l with
  | nil => exact .nil
  | cons a l ih =>
    have hrest := ih (fun a' ha' => hkeep a' (List.mem_cons_of_mem _ ha'))
      fun a' ha' => hdrop a' (List.mem_cons_of_mem _ ha')
    cases hfa : f a with
    | none =>
      rw [List.filterMap_cons_none hfa,
        List.filter_cons_of_neg (by simp [(hdrop a List.mem_cons_self).1 hfa])]
      exact hrest
    | some b =>
      have hka : keep a = true := by
        by_contra hka
        rw [(hdrop a List.mem_cons_self).2 (Bool.eq_false_iff.2 hka)] at hfa
        cases hfa
      rw [List.filterMap_cons_some hfa, List.filter_cons_of_pos hka]
      exact .cons (hkeep a List.mem_cons_self b hfa) hrest

theorem line_of_rowOf? {aliases : AliasTable} {row : ReferenceRow}
    (h : rowOf? view file aliases r = some row) : row.line = r.line ∧ row.raw = r.raw := by
  unfold rowOf? at h
  split at h
  · obtain rfl := Option.some.inj h
    exact ⟨rfl, rfl⟩
  · obtain ⟨o, ho, rfl⟩ := Option.map_eq_some_iff.1 h
    obtain rfl := reference_of_answer_outgoingOf ho
    exact ⟨rfl, rfl⟩

theorem pairwise_rows (view : View) (file : Path) (text : String) :
    ((references text).filterMap (rowOf? view file (repositoryAliases text))).Pairwise fun a b =>
      a.line < b.line := by
  refine List.pairwise_filterMap.2
    ((pairwise_references text).imp fun {r r'} hlt row hrow row' hrow' => ?_)
  rw [(line_of_rowOf? hrow).1, (line_of_rowOf? hrow').1]
  exact hlt

/-- Both passes together find the rows of all references. -/
theorem rows_perm (htext : view.text file = some text) :
    (runtimeRows text ++ ((outgoing file).answer view).map Outgoing.row).Perm
      ((references text).filterMap (rowOf? view file (repositoryAliases text))) := by
  have hruntime : runtimeRows text = ((references text).filter (·.isRuntimeExpression)).filterMap
      (rowOf? view file (repositoryAliases text)) := by
    rw [runtimeRows, ← List.filterMap_eq_map]
    refine List.filterMap_congr fun r hr => ?_
    rw [rowOf?, if_pos (List.mem_filter.1 hr).2]
    rfl
  have hfollowed : ((outgoing file).answer view).map Outgoing.row =
      ((references text).filter fun r => !r.isRuntimeExpression).filterMap
        (rowOf? view file (repositoryAliases text)) := by
    rw [answer_outgoing, htext, List.map_filterMap, List.filterMap_filter]
    refine List.filterMap_congr fun r _ => ?_
    cases hr : r.isRuntimeExpression
    · simp [rowOf?, hr]
    · rw [answer_outgoingOf, hr]
      rfl
  rw [hruntime, hfollowed, ← List.filterMap_append]
  exact (List.filter_append_perm _ _).filterMap _

/-- The listing is that of the references, one by one. -/
theorem answer_listReferences (htext : view.text file = some text) :
    (listReferences file).answer view =
      (references text).filterMap (rowOf? view file (repositoryAliases text)) := by
  have trans : ∀ a b c : ReferenceRow, decide (a.line ≤ b.line) = true →
      decide (b.line ≤ c.line) = true →
      decide (a.line ≤ c.line) = true := by
    simp only [decide_eq_true_iff]
    omega
  have total : ∀ a b : ReferenceRow,
      (decide (a.line ≤ b.line) || decide (b.line ≤ a.line)) = true := by
    simp only [Bool.or_eq_true, decide_eq_true_iff]
    omega
  rw [listReferences, answer_bind, answer_text, htext, answer_bind, answer_pure]
  refine mergeSort_eq_of_strict trans total (rows_perm htext)
    ((pairwise_rows view file text).imp fun hlt => ?_)
  simp only [decide_eq_true_iff, decide_eq_false_iff_not]
  omega

theorem asks_listReferences (file : Path) : (listReferences file).Asks (· = file) (· = file) := by
  have houtgoing : (outgoing file).Asks (· = file) (· = file) := asks_outgoing rfl rfl
  refine Asks.bind (asks_text_iff.2 rfl) fun text? => ?_
  split
  · exact asks_pure _
  · exact houtgoing.bind fun _ => asks_pure _

namespace Workspace

/-- Whatever a workspace remembers of the files: the listing of a file that it can read has one row
for each reference that is not blank, in the order of the references, on lines that ascend and are
the lines of the file that make the references. A row reports its reference, by what is found of the
references that can be followed, and what it says of the files and the aliases is so. -/
theorem listing_of_references (ws : Workspace) (tree : FileTree) {file : Path} {text : String}
    (htext : (ws.ask tree (Inquiry.text file)).1 = some text) :
    let rows := (ws.ask tree (listReferences file)).1
    let found := (ws.ask tree (outgoing file)).1
    List.Forall₂ (fun r row => row.Reports found r) ((references text).filter (!·.isBlank)) rows ∧
      rows.Pairwise (fun a b => a.line < b.line) ∧
      ∀ row ∈ rows, row.status.Holds tree.isFile (repositoryAliases text) row.raw ∧
        ∃ line, (linesOf text)[row.line]? = some line ∧ referenceOfLine? line row.line =
          some ⟨row.raw, row.line⟩ := by
  intro rows found
  have hview : (tree.viewOf ws.memory file).text file = some text := htext
  have hrows : rows = (references text).filterMap
      (rowOf? (tree.viewOf ws.memory file) file (repositoryAliases text)) :=
    (run_fst_of_file (asks_listReferences file)).trans (answer_listReferences hview)
  have hfound : found = (outgoing file).answer (tree.viewOf ws.memory file) :=
    run_fst_of_file (asks_outgoing rfl rfl)
  rw [hrows, hfound]
  refine ⟨?_, pairwise_rows _ file text, fun row hrow => ?_⟩
  · refine forall₂_filter_filterMap (fun r hr row hrow => reports_rowOf? hview hr hrow)
      fun r _ => ?_
    rw [rowOf?_eq_none_iff, Bool.not_eq_false']
  · obtain ⟨r, hr, hrow⟩ := List.mem_filterMap.1 hrow
    obtain ⟨hline, hraw⟩ := line_of_rowOf? hrow
    obtain ⟨line, hget, hmakes⟩ := mem_references_iff.1 hr
    rw [hline, hraw]
    exact ⟨holds_rowOf? hrow, line, hget, hmakes⟩

/-- A file with a reference of every outcome, and a blank one. -/
theorem listing_of_five_references :
    let text :=
      "- template: $(t)\n- template: a.yml\n- template: \x27 \x27\n- template: ./b.yml\n- template: b.yml@x"
    let tree : FileTree := .put (.makeDirectories {} ["p"]) ["p", "a.yml"] text.toUTF8 none
    let ws : Workspace := { root := ⟨"/p"⟩, options := {}, reader := .ofRules }
    let rows := (ws.ask tree (listReferences ⟨"/p/a.yml"⟩)).1
    (ws.ask tree (Inquiry.text ⟨"/p/a.yml"⟩)).1 = some text ∧
      rows.Pairwise (fun a b => a.line < b.line) ∧
      rows.map (fun row => (row.line, row.raw)) =
        [(0, "$(t)"), (1, "a.yml"), (3, "./b.yml"), (4, "b.yml@x")] := by
  intro text tree ws rows
  have htext : (ws.ask tree (Inquiry.text ⟨"/p/a.yml"⟩)).1 = some text := by
    decide +kernel
  obtain ⟨hreports, hlines, -⟩ := listing_of_references ws tree htext
  have hsame : ((references text).filter (!·.isBlank)).map (fun r => (r.line, r.raw)) =
      rows.map fun row => (row.line, row.raw) := by
    refine List.forall₂_eq_eq_eq ▸ List.forall₂_map_left_iff.2 (List.forall₂_map_right_iff.2 ?_)
    exact hreports.imp fun r row h => by rw [h.line, h.raw]
  refine ⟨htext, hlines, hsame.symm.trans ?_⟩
  decide +kernel

end Workspace

end TemplateAtlas
