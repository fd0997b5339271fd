import TemplateAtlas.Corpus.Ignore
import TemplateAtlas.Proofs.Inquiry
import TemplateAtlas.Proofs.Template.Usage
import TemplateAtlas.Report.Diagnostic
import TemplateAtlas.Workspace

/-!
# Findings about parameters that are never used

A check of a file finds of each parameter that is declared there whether its name is used in the
text (`filter_isUnused_perm`); what is found at the references never says so of a parameter
(`yields_checkReference`). So no parameter that an expression of its own uses is reported, and one
that is mentioned nowhere is reported wherever it is declared
(`Workspace.reports_unused_parameters`).
-/

namespace TemplateAtlas

open Inquiry
open TemplateAtlas.Text TemplateAtlas.Template

/-- What is found is that a parameter with this name is never used. -/
def Diagnostic.isUnused (name : String) (d : Diagnostic) : Bool :=
  match d.finding with
  | .unusedParameter parameter => parameter = name
  | _ => false

variable {name : String} {text : String}

theorem isUnused_of_mem_checkCallSite {declared : List ParameterDeclaration}
    {passed : SortedMap String PassedParameter} {line : Nat} {template : Path} {d : Diagnostic}
    (h : d ∈ checkCallSite declared passed line template) : d.isUnused name = false := by
  rcases List.mem_append.1 h with h | h
  · obtain ⟨-, -, rfl⟩ := List.mem_map.1 h
    rfl
  · split at h
    · cases h
    · obtain ⟨p, -, hp⟩ := List.mem_filterMap.1 h
      unfold checkArgument at hp
      split at hp
      · cases hp
        rfl
      · split at hp
        · cases hp
        · cases hp
          rfl

/-- What is found at a reference is not that a parameter is never used. -/
theorem yields_checkReference (name : String) (lines : List (List Char)) (o : Outgoing) :
    (checkReference lines o).Yields fun found => ∀ d ∈ found, d.isUnused name = false := by
  unfold checkReference
  split
  · simp [Diagnostic.isUnused]
  · simp [Diagnostic.isUnused]
  · exact (yields_true _).bind fun _ _ _ hd => isUnused_of_mem_checkCallSite hd

/-- Of the parameters that are found never used, those with a name are all that are declared with
it, or none. -/
theorem filter_isUnused_unusedParameters (name text : String) :
    (unusedParameters text).filter (Diagnostic.isUnused name) =
      if SortedMap.contains (usages text) name then []
      else ((parameters text).filter (·.name = name)).map fun d =>
        ⟨d.line, .unusedParameter name⟩ := by
  have hfilter : (unusedParameters text).filter (Diagnostic.isUnused name) =
      ((parameters text).filter fun d => d.name =
        name && !SortedMap.contains (usages text) d.name).map
        fun d => ⟨d.line, .unusedParameter d.name⟩ := by
    rw [unusedParameters, List.filter_map, List.filter_filter]
    rfl
  rw [hfilter]
  split
  next hused =>
    rw [List.map_eq_nil_iff, List.filter_eq_nil_iff]
    rintro d - hd
    obtain ⟨hname, hunused⟩ := Bool.and_eq_true_iff.1 hd
    rw [of_decide_eq_true hname, hused] at hunused
    cases hunused
  next hunused =>
    have hsame : (parameters text).filter
        (fun d => d.name = name && !SortedMap.contains (usages text) d.name) =
        (parameters text).filter (·.name = name) := by
      refine List.filter_congr fun d _ => ?_
      by_cases hname : d.name = name <;> simp [hname, hunused]
    rw [hsame]
    refine List.map_congr_left fun d hd => ?_
    rw [of_decide_eq_true (List.mem_filter.1 hd).2]

namespace Workspace

/-- What a workspace finds of parameters with a name that are never used, it finds in the text of
the file. -/
theorem filter_isUnused_perm (ws : Workspace) (tree : FileTree) {file : Path}
    (htext : (ws.ask tree (Inquiry.text file)).1 = some text) (name : String) :
    ((ws.ask tree (checkFile file)).1.filter (Diagnostic.isUnused name)).Perm
      ((unusedParameters text).filter (Diagnostic.isUnused name)) := by
  have htext' : ((Inquiry.text file).run tree ws.memory).1 = some text := htext
  have hyields : (do
      let found ← Inquiry.each (checkReference (linesOf text)) (← outgoing file)
      return (found.flatten ++ unusedParameters text).mergeSort Diagnostic.comesBefore).Yields
        fun found : List Diagnostic => (found.filter (Diagnostic.isUnused name)).Perm
          ((unusedParameters text).filter (Diagnostic.isUnused name)) := by
    refine (yields_true _).bind fun references _ =>
      (Yields.each fun o _ => yields_checkReference name _ o).bind
      fun found hfound => ?_
    have hnone : found.flatten.filter (Diagnostic.isUnused name) = [] := by
      refine List.filter_eq_nil_iff.2 fun d hd hunused => ?_
      obtain ⟨ds, hds, hd⟩ := List.mem_flatten.1 hd
      rw [hfound ds hds d hd] at hunused
      cases hunused
    refine ((List.mergeSort_perm _ _).filter _).trans (List.Perm.of_eq ?_)
    rw [List.filter_append, hnone, List.nil_append]
  have hrun := hyields.run_fst tree ((Inquiry.text file).run tree ws.memory).2
  show (((checkFile file).run tree ws.memory).1.filter _).Perm _
  rwa [checkFile, run_bind, htext']

/-- Whatever a workspace remembers of the files, and whatever else it finds in a file that it can
read: if an expression of its own uses a name in a line outside its comment, no parameter with this
name is reported as never used; and if no line mentions the name outside its comment, each parameter
that is declared with it is reported once, as a warning on the line of its declaration. -/
theorem reports_unused_parameters (ws : Workspace) (tree : FileTree) {file : Path}
    (htext : (ws.ask tree (Inquiry.text file)).1 = some text)
    (hname : IsParameterName name.toList) :
    let reported := (ws.ask tree (checkFile file)).1.filter (Diagnostic.isUnused name)
    ((∃ line ∈ linesOf text, Expresses name.toList (stripComment line)) → reported = []) ∧
      ((∀ line ∈ linesOf text, ¬ Mentions name.toList (stripComment line)) →
        reported.Perm (((parameters text).filter (·.name = name)).map fun d =>
          ⟨d.line, .unusedParameter name⟩)) ∧
      ∀ d ∈ reported, d.severity = .warning := by
  intro reported
  have hreported : reported.Perm _ := ws.filter_isUnused_perm tree htext name
  rw [filter_isUnused_unusedParameters] at hreported
  refine ⟨?_, fun hnowhere => ?_, fun d hd => ?_⟩
  · rintro ⟨line, hline, hexpresses⟩
    rw [if_pos (contains_usages_iff.2
      ⟨line, hline, mem_usagesOfLine_of_expresses hname hexpresses⟩)] at hreported
    exact hreported.eq_nil
  · have hunused : ¬ SortedMap.contains (usages text) name = true := fun hused => by
      obtain ⟨line, hline, hmem⟩ := contains_usages_iff.1 hused
      exact hnowhere line hline (mentions_of_mem_usagesOfLine hmem)
    rwa [if_neg hunused] at hreported
  · have hunused := (List.mem_filter.1 hd).2
    unfold Diagnostic.isUnused at hunused
    split at hunused
    next hfinding => rw [Diagnostic.severity, hfinding, Finding.severity]
    next => cases hunused

/-- One parameter is used behind a text that looks like a use of it, and one is declared twice and
used in a comment. -/
theorem reports_of_two_parameters :
    let text := "parameters:\n- name: a-b\n- name: k\n- name: k\nsteps:\n" ++
      "- script: parameters.a-b2 $\x7b\x7b parameters.a-b \x7d\x7d # $\x7b\x7b parameters.k \x7d\x7d"
    let tree : FileTree := .put (.makeDirectories {} ["p"]) ["p", "a.yml"] text.toUTF8 none
    let ws : Workspace := { root := ⟨"/p"⟩, options := {}, reader := .ofRules }
    let reported := fun name =>
      (ws.ask tree (checkFile ⟨"/p/a.yml"⟩)).1.filter (Diagnostic.isUnused name)
    (ws.ask tree (Inquiry.text ⟨"/p/a.yml"⟩)).1 = some text ∧
      (∃ line ∈ linesOf text, Expresses "a-b".toList (stripComment line)) ∧ reported "a-b" = [] ∧
      (∀ line ∈ linesOf text, ¬ Mentions "k".toList (stripComment line)) ∧
      ((reported "k").map (·.line)).Perm [2, 3] := by
  intro text tree ws reported
  have htext : (ws.ask tree (Inquiry.text ⟨"/p/a.yml"⟩)).1 = some text := by
    decide +kernel
  have hexpresses : ∃ line ∈ linesOf text, Expresses "a-b".toList (stripComment line) := by
    have hoccurs : ∃ line ∈ linesOf text,
        occursIn "$\x7b\x7b parameters.a-b \x7d\x7d".toList (stripComment line) = true := by
      decide +kernel
    obtain ⟨line, hline, hoccurs⟩ := hoccurs
    exact ⟨line, hline, .inl (occursIn_iff_isInfix.1 hoccurs)⟩
  have hnowhere : ∀ line ∈ linesOf text, ¬ Mentions "k".toList (stripComment line) := by
    have hplain : ∀ line ∈ linesOf text,
        occursIn "parameters.k".toList (stripComment line) = false ∧
        occursIn "parameters[".toList (stripComment line) = false := by
      decide +kernel
    intro line hline hmentions
    obtain ⟨hdot, hbracket⟩ := hplain line hline
    rcases hmentions with h | ⟨bs, q, q', -, -, -, h⟩
    · exact Bool.eq_false_iff.1 hdot (occursIn_iff_isInfix.2 h)
    · refine Bool.eq_false_iff.1 hbracket
        (occursIn_iff_isInfix.2 (List.IsInfix.trans ⟨[], ?_, ?_⟩ h))
      · exact bs ++ [q] ++ "k".toList ++ [q']
      · simp only [List.nil_append, List.append_assoc]
  obtain ⟨hused, -, -⟩ := reports_unused_parameters ws tree htext
    (⟨'a', _, rfl, by decide, List.all_eq_true.1 (by decide)⟩ : IsParameterName "a-b".toList)
  obtain ⟨-, hunused, -⟩ := reports_unused_parameters ws tree htext
    (⟨'k', [], rfl, by decide, List.forall_mem_nil _⟩ : IsParameterName "k".toList)
  refine ⟨htext, hexpresses, hused hexpresses, hnowhere,
    ((hunused hnowhere).map _).trans (List.Perm.of_eq ?_)⟩
  decide +kernel

end Workspace

end TemplateAtlas
