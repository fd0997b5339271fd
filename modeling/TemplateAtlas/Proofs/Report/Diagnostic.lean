import TemplateAtlas.Proofs.Graph.Outgoing
import TemplateAtlas.Proofs.Template.Endings
import TemplateAtlas.Report.Diagnostic
import TemplateAtlas.Workspace

/-!
# Checking a file

What is found in a file is what its references make, one after the other, and what it declares and
never uses, in the order of the lines (`answer_checkFile`). A check asks for the root of one
repository alone, that of the file, so the answer of a workspace is that of the files to anyone who
knows this root (`Workspace.ask_checkFile`). Of the texts only the lines count (`checkFile_congr`).
-/

namespace TemplateAtlas

open Inquiry
open TemplateAtlas.Text TemplateAtlas.Template

variable {view view' : View} {file : Path}

/-! ### What is found -/

theorem answer_parametersOf (view : View) (path : Path) :
    (parametersOf path).answer view = ((view.text path).map parameters).getD [] := by
  rw [parametersOf, answer_bind, answer_text, answer_pure]

/-- A reference to an existing file is checked against what the file declares. -/
theorem answer_checkReference_file (view : View) (lines : List (List Char)) {o : Outgoing}
    {path : Path} {repository? : Option String} (h : o.target = .file path repository?) :
    (checkReference lines o).answer view =
      checkCallSite (((view.text path).map parameters).getD [])
        (passedParameters lines o.reference.line) o.reference.line path := by
  rw [checkReference, h]
  simp only [answer_bind, answer_parametersOf, answer_pure]

/-- What is found in a file comes from its references and its declarations, in the order of the
lines. -/
theorem answer_checkFile (view : View) (file : Path) :
    (checkFile file).answer view = match view.text file with
      | none => []
      | some text =>
        (((outgoing file).answer view).flatMap
          (fun o => (checkReference (linesOf text) o).answer view) ++
          unusedParameters text).mergeSort Diagnostic.comesBefore := by
  rw [checkFile, answer_bind, answer_text]
  cases view.text file with
  | none => rfl
  | some text => simp only [answer_bind, answer_each, answer_pure, List.flatMap_def]

/-! ### What is asked -/

theorem asks_checkReference {roots : Path → Prop} (lines : List (List Char)) (o : Outgoing) :
    (checkReference lines o).Asks (fun _ => True) roots := by
  unfold checkReference
  split
  · exact asks_pure _
  · exact asks_pure _
  · refine Asks.bind (Asks.bind (asks_text_iff.2 trivial) fun _ => asks_pure _) fun _ => asks_pure _

/-- The only root that a check asks for is that of the file. -/
theorem asks_checkFile (file : Path) : (checkFile file).Asks (fun _ => True) (· = file) := by
  refine Asks.bind (asks_text_iff.2 trivial) fun text? => ?_
  cases text? with
  | none => exact asks_pure _
  | some text =>
    have houtgoing : (outgoing file).Asks (fun _ => True) (· = file) := asks_outgoing trivial rfl
    refine houtgoing.bind fun found => ?_
    exact (Asks.each fun o _ => asks_checkReference _ o).bind fun _ => asks_pure _

/-- What a workspace finds is what the files show to anyone who knows the root of the file's
repository. -/
theorem Workspace.ask_checkFile {tree : FileTree} {ws : Workspace}
    (h : ws.memory.cache.Agrees (fun _ => True) tree) (hview : view.SameFiles tree)
    (hroot : view.root file = (ws.memory.roots.root tree file).1) :
    (ws.ask tree (checkFile file)).1 = (checkFile file).answer view :=
  run_fst_of_root hview h (asks_checkFile file) hroot

/-! ### Only the lines count -/

/-- The views know the same files, and the texts have the same lines. -/
structure Inquiry.View.SameLines (view view' : View) : Prop where
  /-- The lines are the same. -/
  lines : ∀ p, (view.text p).map linesOf = (view'.text p).map linesOf
  /-- The files are the same. -/
  isFile : ∀ p, view.isFile p = view'.isFile p

theorem Inquiry.View.SameLines.parameters (h : view.SameLines view') (p : Path) :
    (view.text p).map Template.parameters = (view'.text p).map Template.parameters := by
  have hlines := h.lines p
  cases ha : view.text p with
  | none => cases hb : view'.text p <;> simp [ha, hb] at hlines ⊢
  | some a =>
    cases hb : view'.text p with
    | none => simp [ha, hb] at hlines
    | some b =>
      rw [ha, hb] at hlines
      exact congrArg some (parameters_of_linesOf (Option.some.inj hlines))

theorem answer_targetOf_congr (h : ∀ p, view.isFile p = view'.isFile p) (resolved : Resolved) :
    (targetOf resolved).answer view = (targetOf resolved).answer view' := by
  cases resolved with
  | unknownAlias name => rfl
  | path path repository? => rw [answer_targetOf_path, answer_targetOf_path, h]

theorem answer_outgoingOf_congr (h : ∀ p, view.isFile p = view'.isFile p)
    (hroot : view.root file = view'.root file) (aliases : AliasTable) (r : TemplateReference) :
    (outgoingOf file aliases r).answer view = (outgoingOf file aliases r).answer view' := by
  rw [answer_outgoingOf, answer_outgoingOf, resolve_congr rfl hroot]
  simp only [answer_targetOf_congr h]

theorem answer_checkReference_congr (h : view.SameLines view') (lines : List (List Char))
    (o : Outgoing) :
    (checkReference lines o).answer view = (checkReference lines o).answer view' := by
  cases htarget : o.target with
  | unknownAlias name => simp [checkReference, htarget]
  | missing path repository? => simp [checkReference, htarget]
  | file path repository? =>
    rw [answer_checkReference_file view lines htarget,
      answer_checkReference_file view' lines htarget, h.parameters]

/-- Of the texts only the lines count in a check. -/
theorem checkFile_congr (h : view.SameLines view') (hroot : view.root file = view'.root file) :
    (checkFile file).answer view = (checkFile file).answer view' := by
  have hlines := h.lines file
  rw [answer_checkFile, answer_checkFile, answer_outgoing, answer_outgoing]
  cases ha : view.text file with
  | none => cases hb : view'.text file <;> simp [ha, hb] at hlines ⊢
  | some a =>
    cases hb : view'.text file with
    | none => simp [ha, hb] at hlines
    | some b =>
      have hab : linesOf a = linesOf b := by
        rw [ha, hb] at hlines
        exact Option.some.inj hlines
      have hunused : unusedParameters a = unusedParameters b := by
        rw [unusedParameters, unusedParameters, usages_of_linesOf hab, parameters_of_linesOf hab]
      simp only [references_of_linesOf hab, repositoryAliases_of_linesOf hab, hab, hunused,
        answer_outgoingOf_congr h.isFile hroot, answer_checkReference_congr h]

end TemplateAtlas
