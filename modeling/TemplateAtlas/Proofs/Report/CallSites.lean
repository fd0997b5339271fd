import TemplateAtlas.Proofs.Report.Diagnostic
import TemplateAtlas.Proofs.Report.Order
import TemplateAtlas.Proofs.Template.CallSites
import TemplateAtlas.Proofs.Workspace

/-!
# Findings at call sites

A template stands in a directory and declares parameters, and a file beside it holds calls of the
template, each in a column of its own. A check of this file finds exactly what is wrong with the
calls (`Workspace.checkFile_of_callSites`): on the line of a call, each parameter without a default
that it does not pass (`missingFindings`), and on the line of an argument, that nothing of its name
is declared or that its value is not allowed (`argumentFinding?`).

The name of the template leads to the file beside the caller (`IsPlainName.answer_outgoingOf`). A
check keeps the arguments of a call by name, and the sorting by lines brings them back into the
order in which they are written (`mergeSort_checkedSite`). All findings at a call stand on its
lines, so the calls can be sorted one by one (`mergeSort_flatMap_checkedSite`).
-/

namespace TemplateAtlas

open Inquiry
open TemplateAtlas.Text TemplateAtlas.Template

/-! ### Where a file name leads -/

/-- A name of a file that stands for itself in a reference: it has no blanks, no slashes, no sign of
an alias and no sign of an expression. -/
structure IsPlainName (name : String) : Prop where
  /-- There is a name. -/
  ne : name.toList ≠ []
  /-- It has no blanks. -/
  not_blank : ∀ c ∈ name.toList, isBlank c = false
  /-- It leads into no directory. -/
  not_slash : '/' ∉ name.toList
  /-- It has no alias. -/
  not_at : '@' ∉ name.toList
  /-- It holds no expression. -/
  not_dollar : '$' ∉ name.toList

section Names

variable {name : String}

theorem IsPlainName.splitAlias_eq (h : IsPlainName name) : splitAlias name = (name, none) := by
  rw [splitAlias, splitLast?_eq_none_iff.2 h.not_at]

theorem IsPlainName.isRuntimeExpression_eq (h : IsPlainName name) :
    isRuntimeExpression name.toList = false := by
  rw [isRuntimeExpression, occursIn_eq_false (c := '$') (by simp) h.not_dollar,
    occursIn_eq_false (c := '$') (by simp) h.not_dollar,
    occursIn_eq_false (c := '$') (by simp) h.not_dollar]
  rfl

/-- A plain name leads to the file of this name beside the referring file. -/
theorem IsPlainName.answer_resolve (h : IsPlainName name) (view : View) (file : Path)
    (aliases : AliasTable) :
    (resolve name file aliases).answer view =
      some (.path (file.directory.child name).normalize none) := by
  have hfirst : ∀ c ∈ name.toList.head?, isBlank c = false :=
    fun c hc => h.not_blank c (List.mem_of_mem_head? hc)
  have hlast : ∀ c ∈ name.toList.getLast?, isBlank c = false := fun c hc =>
    h.not_blank c (List.mem_of_mem_getLast? hc)
  have hslash : name.toList.head? ≠ some '/' := by
    intro hhead
    exact h.not_slash (List.mem_of_mem_head? hhead)
  rw [answer_resolve_own h.ne hfirst hlast h.not_at (.inl rfl), resolveLocal, if_neg hslash,
    answer_pure, String.ofList_toList]

/-- The reference by a plain name ends at the file, if there is one. -/
theorem IsPlainName.answer_outgoingOf (h : IsPlainName name) {view : View} {file : Path}
    (hfile : view.isFile (file.directory.child name).normalize = true) (aliases : AliasTable)
    (number : Nat) :
    (outgoingOf file aliases ⟨name, number⟩).answer view =
      some ⟨⟨name, number⟩, none, .file (file.directory.child name).normalize none⟩ := by
  have hruntime : TemplateReference.isRuntimeExpression ⟨name, number⟩ = false :=
    h.isRuntimeExpression_eq
  have halias : foreignAlias? name = none := by
    rw [foreignAlias?, h.splitAlias_eq, Option.filter_none]
  rw [TemplateAtlas.answer_outgoingOf, if_neg (by simp [hruntime]),
    h.answer_resolve view file aliases, Option.map_some, answer_targetOf_path, if_pos hfile, halias]

end Names

/-! ### Findings at one call -/

/-- The values that a parameter is restricted to, if any are listed. -/
def Template.Declared.allowed {column : Nat} (d : Declared column) : List String :=
  (d.values?.map fun values => values.map (·.value.1)).getD []

section Findings

variable {column : Nat} (written : List (WrittenParameter column)) (target : Path)

/-- The parameters without a default that a call does not pass, in the order of their
declarations. -/
def missingFindings (call : Template.Call) : List Finding :=
  (written.filter fun p => p.declared.default?.isNone &&
    !(call.arguments.map (·.name)).contains p.declared.name.1).map
    fun p => .missingParameter p.declared.name.1 target

/-- What is wrong with an argument: its name is not declared, or its value is none of those that are
listed. Empty values and expressions are never wrong. -/
def argumentFinding? (a : Argument) : Option Finding :=
  match written.find? (·.declared.name.1 = a.name) with
  | none => some (.unknownParameter a.name target)
  | some p =>
    if a.value ≠ "" ∧ isRuntimeExpression a.value.toList = false ∧ p.declared.allowed ≠ [] ∧
        a.value ∉ p.declared.allowed then
      some (.invalidValue a.name a.value p.declared.allowed)
    else none

/-- What is wrong with the arguments of a call on a line, each on its own line; nothing, if the
template declares nothing. -/
def argumentFindings (site : Nat × WrittenCall) : List Diagnostic :=
  if written = [] then []
  else
    (site.2.call.arguments.zipIdx (site.1 + 2)).filterMap fun q =>
      (argumentFinding? written target q.1).map (⟨q.2, ·⟩)

/-- What is wrong with a call on a line: first what it does not pass, and then what is wrong with
its arguments. -/
def siteFindings (site : Nat × WrittenCall) : List Diagnostic :=
  (missingFindings written target site.2.call).map (⟨site.1, ·⟩) ++
    argumentFindings written target site

/-- What the template declares. -/
def declarations : List ParameterDeclaration :=
  (placed (fun p => p.item.height) 1 written).map fun q => q.2.declared.declaration q.1

/-- What is passed at a call on a line. -/
def passedAt (site : Nat × WrittenCall) : List PassedParameter :=
  (site.2.call.arguments.zipIdx (site.1 + 2)).map fun q => ⟨q.1.name, q.1.value, q.2⟩

/-- What a check makes of a call on a line. -/
def checkedSite (site : Nat × WrittenCall) : List Diagnostic :=
  checkCallSite (declarations written)
    (.ofListFirst ((passedAt site).map fun p => (p.name, p))) site.1 target

/-- The lines of the template declare its parameters. -/
theorem parameters_blockLines (ended : Bool) :
    parameters (textOf (blockLines written) ended) = declarations written := by
  have hread := parameters_keyItems (fun p : WrittenParameter column => p.item.keyItem)
    WrittenParameter.parameterOfFields?_keyItem written ended
  simp only [WrittenItem.lines_keyItem, WrittenItem.height_keyItem] at hread
  exact hread

theorem isEmpty_declarations : (declarations written).isEmpty = decide (written = []) := by
  cases written <;> rfl

/-- What is found of the declaration of a name is what is written. -/
theorem find?_declarations (name : String) :
    ((declarations written).find? (·.name = name)).map (·.allowed) =
      (written.find? (·.declared.name.1 = name)).map (·.declared.allowed) := by
  conv_rhs => rw [← map_snd_placed (fun p => p.item.height) 1 written]
  rw [declarations, List.find?_map, List.find?_map, Option.map_map, Option.map_map]
  rfl

theorem checkArgument_eq (a : Argument) (line : Nat) :
    checkArgument (declarations written) target ⟨a.name, a.value, line⟩ =
      (argumentFinding? written target a).map (⟨line, ·⟩) := by
  have hfind := find?_declarations written a.name
  rw [checkArgument, argumentFinding?]
  cases hwritten : written.find? (·.declared.name.1 = a.name) with
  | none =>
    rw [hwritten, Option.map_none, Option.map_eq_none_iff] at hfind
    simp [hfind]
  | some p =>
    rw [hwritten, Option.map_some, Option.map_eq_some_iff] at hfind
    obtain ⟨d, hd, hallowed⟩ := hfind
    have hadmits : admitsValue d a.value = true ↔
        ¬(a.value ≠ "" ∧ isRuntimeExpression a.value.toList = false ∧
        p.declared.allowed ≠ [] ∧ a.value ∉ p.declared.allowed) := by
      simp only [admitsValue, hallowed, Bool.or_eq_true, String.isEmpty_iff, List.isEmpty_iff,
        List.contains_eq_mem, decide_eq_true_eq, ← Bool.not_eq_true]
      tauto
    simp only [hd]
    by_cases hwrong : a.value ≠ "" ∧ isRuntimeExpression a.value.toList = false ∧
      p.declared.allowed ≠ [] ∧
        a.value ∉ p.declared.allowed
    · rw [if_neg (mt hadmits.1 (not_not_intro hwrong)), if_pos hwrong, hallowed]
      rfl
    · rw [if_pos (hadmits.2 hwrong), if_neg hwrong]
      rfl

theorem map_name_passedAt (site : Nat × WrittenCall) :
    (passedAt site).map (·.name) = site.2.call.arguments.map (·.name) := by
  rw [passedAt, List.map_map]
  conv_rhs => rw [← List.zipIdx_map_fst (site.1 + 2) site.2.call.arguments, List.map_map]
  rfl

/-- The arguments of a call, by name, if each name occurs once. -/
theorem values_passedAt_perm {site : Nat × WrittenCall}
    (hnames : (site.2.call.arguments.map (·.name)).Nodup) :
    (SortedMap.ofListFirst ((passedAt site).map fun p => (p.name, p))).values.Perm
    (passedAt site) := by
  have hapart : ((passedAt site).map fun p => (p.name, p)).Pairwise fun e f =>
      compare e.1 f.1 ≠ .eq := by
    rw [← map_name_passedAt, List.Nodup, List.pairwise_map] at hnames
    rw [List.pairwise_map]
    exact hnames.imp fun hne heq => hne (Std.LawfulEqCmp.eq_of_compare heq)
  have hperm := (SortedMap.entries_ofListFirst_perm hapart).map (·.2)
  rwa [List.map_map, Function.comp_def, List.map_id'] at hperm

theorem contains_passedAt (site : Nat × WrittenCall) (name : String) :
    (SortedMap.ofListFirst ((passedAt site).map fun p => (p.name, p))).contains name =
      (site.2.call.arguments.map (·.name)).contains name := by
  rw [Bool.eq_iff_iff, SortedMap.contains, SortedMap.find?_ofListFirst, Option.isSome_map,
    List.find?_isSome, List.contains_iff_mem, ← map_name_passedAt]
  simp only [List.mem_map, beq_iff_eq, Std.compare_eq_iff_eq]
  constructor
  · rintro ⟨_, ⟨p, hp, rfl⟩, heq⟩
    exact ⟨p, hp, heq.symm⟩
  · rintro ⟨p, hp, rfl⟩
    exact ⟨_, ⟨p, hp, rfl⟩, rfl⟩

/-- The findings at the arguments stand on lines of their own, in the order of these lines. -/
theorem pairwise_argumentFindings (site : Nat × WrittenCall) :
    (argumentFindings written target site).Pairwise fun a b => a.line < b.line := by
  unfold argumentFindings
  split
  · exact .nil
  · have hlines : (site.2.call.arguments.zipIdx (site.1 + 2)).Pairwise fun q r => q.2 < r.2 := by
      have hrange := List.pairwise_lt_range' (s := site.1 + 2) (n := site.2.call.arguments.length)
      rw [← List.zipIdx_map_snd, List.pairwise_map] at hrange
      exact hrange
    rw [List.pairwise_filterMap]
    refine hlines.imp fun {q r} hlt a ha b hb => ?_
    obtain ⟨_, -, rfl⟩ := Option.map_eq_some_iff.1 ha
    obtain ⟨_, -, rfl⟩ := Option.map_eq_some_iff.1 hb
    exact hlt

/-- They stand on lines of the call, below its first. -/
theorem line_of_mem_argumentFindings {site : Nat × WrittenCall} {d : Diagnostic}
    (h : d ∈ argumentFindings written target site) :
    site.1 < d.line ∧ d.line < site.1 + site.2.lines.length := by
  unfold argumentFindings at h
  split at h
  · cases h
  · obtain ⟨⟨a, number⟩, hq, hd⟩ := List.mem_filterMap.1 h
    obtain ⟨_, -, rfl⟩ := Option.map_eq_some_iff.1 hd
    have hmem := List.mem_zipIdx hq
    have hne : site.2.call.arguments.isEmpty = false := by
      cases harguments : site.2.call.arguments with
      | nil => simp [harguments] at hq
      | cons => rfl
    have hlength : site.2.lines.length = site.2.call.arguments.length + 2 := by
      simp [WrittenCall.lines, Call.lines, Call.argumentLines, hne]
    dsimp only at hmem ⊢
    omega

theorem line_of_mem_siteFindings {site : Nat × WrittenCall} {d : Diagnostic}
    (h : d ∈ siteFindings written target site) :
    site.1 ≤ d.line ∧ d.line < site.1 + site.2.lines.length := by
  rcases List.mem_append.1 h with h | h
  · obtain ⟨_, -, rfl⟩ := List.mem_map.1 h
    exact ⟨le_rfl, Nat.lt_add_of_pos_right (Nat.succ_pos _)⟩
  · have hline := line_of_mem_argumentFindings written target h
    exact ⟨hline.1.le, hline.2⟩

/-- A check finds the parameters that a call does not pass. -/
theorem missing_eq (site : Nat × WrittenCall) :
    (((declarations written).filter fun d => d.required &&
        !(SortedMap.ofListFirst ((passedAt site).map fun p => (p.name, p))).contains d.name).map
      fun d => (⟨site.1, .missingParameter d.name target⟩ : Diagnostic)) =
      (missingFindings written target site.2.call).map (⟨site.1, ·⟩) := by
  rw [missingFindings, List.map_map]
  conv_rhs => rw [← map_snd_placed (fun p => p.item.height) 1 written,
    List.filter_map, List.map_map]
  rw [declarations, List.filter_map, List.map_map]
  simp only [contains_passedAt]
  rfl

/-- A check finds what is wrong with the arguments of a call, in the order of their names. -/
theorem filterMap_checkArgument_perm {site : Nat × WrittenCall}
    (hnames : (site.2.call.arguments.map (·.name)).Nodup) :
    (if (declarations written).isEmpty then [] else
      (SortedMap.ofListFirst ((passedAt site).map fun p => (p.name, p))).values.filterMap
        (checkArgument (declarations written) target)).Perm
        (argumentFindings written target site) := by
  rw [isEmpty_declarations, argumentFindings]
  by_cases hnone : written = []
  · rw [if_pos (decide_eq_true hnone), if_pos hnone]
  · rw [if_neg (by simpa using hnone), if_neg hnone]
    refine ((values_passedAt_perm hnames).filterMap _).trans ?_
    rw [passedAt, List.filterMap_map]
    refine .of_eq (List.filterMap_congr fun q _ => ?_)
    exact checkArgument_eq written target q.1 q.2

theorem severity_of_argumentFinding? {a : Argument} {f : Finding}
    (h : argumentFinding? written target a = some f) : f.severity = .error := by
  unfold argumentFinding? at h
  split at h
  · obtain rfl := Option.some.inj h
    rfl
  · split at h
    · obtain rfl := Option.some.inj h
      rfl
    · cases h

/-- Whatever is wrong with a call is an error. -/
theorem severity_of_mem_siteFindings {site : Nat × WrittenCall} {d : Diagnostic}
    (h : d ∈ siteFindings written target site) : d.severity = .error := by
  rcases List.mem_append.1 h with h | h
  · rw [missingFindings, List.map_map] at h
    obtain ⟨p, -, rfl⟩ := List.mem_map.1 h
    rfl
  · unfold argumentFindings at h
    split at h
    · cases h
    · obtain ⟨q, -, hd⟩ := List.mem_filterMap.1 h
      obtain ⟨f, hf, rfl⟩ := Option.map_eq_some_iff.1 hd
      exact severity_of_argumentFinding? written target hf

/-- In the order of the lines, a check of a call finds exactly what is wrong with it. -/
theorem mergeSort_checkedSite {site : Nat × WrittenCall}
    (hnames : (site.2.call.arguments.map (·.name)).Nodup) :
    (checkedSite written target site).mergeSort Diagnostic.comesBefore =
      siteFindings written target site := by
  have harguments := filterMap_checkArgument_perm written target hnames
  have hmissing : ∀ d ∈ (missingFindings written target site.2.call).map
      (⟨site.1, ·⟩ : Finding → Diagnostic),
      d.line = site.1 ∧ d.severity = .error := by
    intro d hd
    rw [missingFindings, List.map_map] at hd
    obtain ⟨p, -, rfl⟩ := List.mem_map.1 hd
    exact ⟨rfl, rfl⟩
  have hsorted :
      ((missingFindings written target site.2.call).map (⟨site.1, ·⟩ : Finding →
      Diagnostic)).Pairwise
      fun a b => a.comesBefore b = true := by
    refine List.pairwise_of_forall_mem_list fun a ha b hb => ?_
    rw [Diagnostic.comesBefore_iff, (hmissing a ha).1, (hmissing a ha).2, (hmissing b hb).1,
      (hmissing b hb).2]
    exact .inr ⟨rfl, le_rfl⟩
  rw [checkedSite, checkCallSite, missing_eq, siteFindings,
    mergeSort_append Diagnostic.comesBefore_trans Diagnostic.comesBefore_total,
    List.mergeSort_of_pairwise hsorted,
    Diagnostic.mergeSort_eq_of_perm harguments (pairwise_argumentFindings written target site)]
  intro a ha b hb
  have hline := (line_of_mem_argumentFindings written target (harguments.mem_iff.1 hb)).1
  exact Diagnostic.comesBefore_of_line_lt (by rwa [(hmissing a ha).1])

end Findings

/-! ### Findings in a file of calls -/

section Files

variable {column : Nat} {written : List (WrittenParameter column)} {calls : List WrittenCall}
  {name : String} {file target : Path} {view : View}

theorem le_of_mem_placed {α : Type} {height : α → Nat} {first : Nat} {as : List α} {p : Nat × α}
    (h : p ∈ placed height first as) : first ≤ p.1 := by
  induction as generalizing first with
  | nil => cases h
  | cons a as ih =>
    rcases List.mem_cons.1 h with rfl | h
    · exact le_rfl
    · exact (Nat.le_add_right _ _).trans (ih h)

/-- What is placed ends before the next begins. -/
theorem pairwise_placed {α : Type} (height : α → Nat) (first : Nat) (as : List α) :
    (placed height first as).Pairwise fun p q => p.1 + height p.2 ≤ q.1 := by
  induction as generalizing first with
  | nil => exact .nil
  | cons a as ih => exact List.pairwise_cons.2 ⟨fun q hq => le_of_mem_placed hq, ih _⟩

theorem mem_of_mem_placed {α : Type} {height : α → Nat} {first : Nat} {as : List α} {p : Nat × α}
    (h : p ∈ placed height first as) : p.2 ∈ as := by
  rw [← map_snd_placed height first as]
  exact List.mem_map_of_mem h

/-- The references of a file of calls end at the template, if there is one. -/
theorem answer_outgoing_callText (hname : IsPlainName name)
    (htarget : (file.directory.child name).normalize = target)
    (hcalls : ∀ w ∈ calls, w.call.reference = name) {ended : Bool}
    (hcaller : view.text file = some (callText calls ended)) (hfile : view.isFile target = true) :
    (outgoing file).answer view = (callSites calls).map fun site =>
      ⟨⟨name, site.1⟩, none, .file target none⟩ := by
  subst htarget
  rw [answer_outgoing, hcaller]
  dsimp only
  rw [references_callText, List.filterMap_map, ← List.filterMap_eq_map']
  refine List.filterMap_congr fun site hsite => ?_
  simp only [Function.comp, hcalls site.2 (mem_of_mem_placed hsite)]
  exact hname.answer_outgoingOf hfile _ _

/-- A file of calls uses all parameters that it declares, as it declares none. -/
theorem unusedParameters_callText (ended : Bool) :
    unusedParameters (callText calls ended) = [] := by
  rw [unusedParameters, parameters_callText]
  rfl

/-- In the order of the lines, a check of all calls finds what is wrong with each, one after the
other. -/
theorem mergeSort_flatMap_checkedSite (hnames : ∀ w ∈ calls, (w.call.arguments.map (·.name)).Nodup)
    (target : Path) :
    ((callSites calls).flatMap (checkedSite written target)).mergeSort Diagnostic.comesBefore =
      (callSites calls).flatMap (siteFindings written target) := by
  have hsorted : ∀ site ∈ callSites calls,
      (checkedSite written target site).mergeSort Diagnostic.comesBefore =
        siteFindings written target site :=
    fun site hsite => mergeSort_checkedSite written target (hnames site.2 (mem_of_mem_placed hsite))
  have hlines : ∀ site ∈ callSites calls, ∀ d ∈ checkedSite written target site,
      site.1 ≤ d.line ∧ d.line < site.1 + site.2.lines.length := by
    intro site hsite d hd
    rw [← List.mem_mergeSort, hsorted site hsite] at hd
    exact line_of_mem_siteFindings written target hd
  have hapart : (callSites calls).Pairwise fun s t =>
      ∀ d ∈ checkedSite written target s, ∀ e ∈ checkedSite written target t,
        d.comesBefore e = true := by
    refine (pairwise_placed _ 0 calls).imp_of_mem fun {s t} hs ht hst d hd e he => ?_
    have hend := (hlines s hs d hd).2
    have hstart := (hlines t ht e he).1
    exact Diagnostic.comesBefore_of_line_lt (by omega)
  rw [mergeSort_flatMap Diagnostic.comesBefore_trans Diagnostic.comesBefore_total hapart]
  exact List.flatMap_congr hsorted

/-- In a file of calls, a check finds what is wrong with each of them, one after the other. -/
theorem answer_checkFile_callText (hname : IsPlainName name)
    (htarget : (file.directory.child name).normalize = target)
    (hcalls : ∀ w ∈ calls, w.call.reference = name ∧ (w.call.arguments.map (·.name)).Nodup)
    {ended ended' : Bool} (hcaller : view.text file = some (callText calls ended))
    (htemplate : view.text target = some (textOf (blockLines written) ended'))
    (hfile : view.isFile target = true) :
    (checkFile file).answer view = (callSites calls).flatMap (siteFindings written target) := by
  have hfound : ∀ site ∈ callSites calls,
      (checkReference (linesOf (callText calls ended))
        ⟨⟨name, site.1⟩, none, .file target none⟩).answer view =
        checkedSite written target site := by
    intro site hsite
    rw [answer_checkReference_file _ _ rfl, htemplate, Option.map_some, Option.getD_some,
      parameters_blockLines, passedParameters, argumentsAt_callText calls ended hsite]
    rfl
  rw [answer_checkFile, hcaller]
  dsimp only
  rw [answer_outgoing_callText hname htarget (fun w hw => (hcalls w hw).1) hcaller hfile,
    unusedParameters_callText, List.append_nil, List.flatMap_map, List.flatMap_congr hfound]
  exact mergeSort_flatMap_checkedSite (fun w hw => (hcalls w hw).2) target

theorem pairwise_answer_checkFile (view : View) (file : Path) :
    ((checkFile file).answer view).Pairwise fun a b => a.comesBefore b = true := by
  rw [answer_checkFile]
  split
  · exact .nil
  · exact List.pairwise_mergeSort Diagnostic.comesBefore_trans Diagnostic.comesBefore_total _

/-- Let a file hold calls of one template, each in its own column and with arguments of different
names, and let the template stand beside it under a plain name and declare parameters in one column,
with whatever strings there are in both. In every workspace that remembers nothing wrong of the
files, a check of the caller finds, call after call, exactly what is wrong with each. The findings
are in the order of their lines, and they are all errors. -/
theorem Workspace.checkFile_of_callSites {tree : FileTree} {ws : Workspace}
    (hws : ws.memory.cache.Agrees (fun _ => True) tree) (hname : IsPlainName name)
    (hcalls : ∀ w ∈ calls, w.call.reference = name ∧ (w.call.arguments.map (·.name)).Nodup)
    {ended ended' : Bool} (hcaller : tree.view.text file = some (callText calls ended))
    (htemplate : tree.view.text (file.directory.child name).normalize =
      some (textOf (blockLines written) ended')) : let found := (ws.ask tree (checkFile file)).1
    found = (callSites calls).flatMap (siteFindings written (file.directory.child name).normalize) ∧
      found.Pairwise (fun a b => a.comesBefore b = true) ∧ ∀ d ∈ found, d.severity = .error := by
  intro found
  have hfile : tree.view.isFile (file.directory.child name).normalize = true :=
    Workspace.isFile_of_isSome_text tree _ (by rw [htemplate, Option.isSome_some])
  -- a check asks for the root of this one file, so a view may give any other file the same
  obtain ⟨view, hview, hroot⟩ : ∃ view : View, view.SameFiles tree ∧
      view.root file = (ws.memory.roots.root tree file).1 :=
    ⟨{ tree.view with root := fun _ => (ws.memory.roots.root tree file).1 },
      ⟨fun _ => rfl, fun _ => rfl⟩, rfl⟩
  have hanswer : found = (checkFile file).answer view := Workspace.ask_checkFile hws hview hroot
  have hfound : found = (callSites calls).flatMap
      (siteFindings written (file.directory.child name).normalize) := by
    rw [← hview.text] at hcaller htemplate
    rw [← hview.isFile] at hfile
    exact hanswer.trans (answer_checkFile_callText hname rfl hcalls hcaller htemplate hfile)
  refine ⟨hfound, ?_, ?_⟩
  · rw [hanswer]
    exact pairwise_answer_checkFile view file
  · intro d hd
    rw [hfound] at hd
    obtain ⟨site, -, hd⟩ := List.mem_flatMap.1 hd
    exact severity_of_mem_siteFindings written _ hd

/-- Three calls, the second deeper than the first and the third left of both: a parameter without a
default is missing twice, a value is not allowed, and a name is not declared. An expression and an
allowed value with a quote are not wrong. -/
theorem Workspace.checkFile_of_three_callSites :
    let template : List (WrittenParameter 0) :=
      [{ declared := ⟨⟨"region", by decide⟩, none, none, none, none, by decide, by simp⟩
         item := ⟨.inline .name ⟨"region", by decide⟩, []⟩
         order := .refl _ },
       { declared :=
          ⟨⟨"stage", by decide⟩, none, some (.inline ⟨"test", by decide⟩), none,
            some [⟨false, ⟨"test", by decide⟩, by decide⟩,
              ⟨true, ⟨"it\x27s live", by decide⟩, by decide⟩],
            by decide, by simp⟩
         item :=
          ⟨.inline .name ⟨"stage", by decide⟩, [.inline .default ⟨"test", by decide⟩,
            .values [⟨false, ⟨"test", by decide⟩, by decide⟩,
              ⟨true, ⟨"it\x27s live", by decide⟩, by decide⟩]]⟩
         order := .refl _ }]
    let calls : List WrittenCall :=
      [⟨2, ⟨"deploy.yml",
        [⟨"stage", "gone", by decide, by decide, by decide⟩], by decide, by decide⟩⟩,
       ⟨6, ⟨"deploy.yml", [⟨"speed", "fast", by decide, by decide, by decide⟩,
          ⟨"region", "north", by decide, by decide, by decide⟩,
          ⟨"stage", "$(stage)", by decide, by decide, by decide⟩], by decide, by decide⟩⟩,
       ⟨0, ⟨"deploy.yml",
         [⟨"stage", "it\x27s live", by decide, by decide, by decide⟩], by decide, by decide⟩⟩]
    let tree := (FileTree.put {} ["deploy.yml"] (textOf (blockLines template) true).toUTF8 none).put
      ["main.yml"] (callText calls false).toUTF8 none
    ((Workspace.new .ofRules tree ⟨"/"⟩ {}).ask tree (checkFile ⟨"/main.yml"⟩)).1 =
      [⟨0, .missingParameter "region" ⟨"/deploy.yml"⟩⟩,
        ⟨2, .invalidValue "stage" "gone" ["test", "it\x27s live"]⟩,
        ⟨5, .unknownParameter "speed" ⟨"/deploy.yml"⟩⟩,
        ⟨8, .missingParameter "region" ⟨"/deploy.yml"⟩⟩] := by
  intro template calls tree
  have hblank : "deploy.yml".toList.all (!isBlank ·) = true := by decide
  have hname : IsPlainName "deploy.yml" :=
    ⟨by decide, by simpa using hblank, by decide, by decide, by decide⟩
  have hcalls : ∀ w ∈ calls, w.call.reference = "deploy.yml" ∧
      (w.call.arguments.map (·.name)).Nodup := by decide
  obtain ⟨_, hmain⟩ : ∃ stamp, tree.node? ["main.yml"] =
      some (.file ⟨(callText calls false).toUTF8, stamp⟩) :=
    FileTree.node?_put_self (by simp) _ _
  obtain ⟨_, hdeploy⟩ : ∃ stamp, tree.node? ["deploy.yml"] =
      some (.file ⟨(textOf (blockLines template) true).toUTF8, stamp⟩) := by
    rw [FileTree.node?_put_of_ne _ _ (by decide)]
    exact FileTree.node?_put_self (by simp) _ _
  have hcaller : tree.view.text ⟨"/main.yml"⟩ = some (callText calls false) :=
    FileTree.view_text_of_toUTF8 (by rfl) hmain
      (by rw [callText, textOf, String.toList_ofList]; decide)
  have htemplate : tree.view.text
      (Path.child (Path.directory ⟨"/main.yml"⟩) "deploy.yml").normalize =
      some (textOf (blockLines template) true) :=
    FileTree.view_text_of_toUTF8 (by rfl) hdeploy (by rw [textOf, String.toList_ofList]; decide)
  have hws : (Workspace.new .ofRules tree ⟨"/"⟩ {}).memory.cache.Agrees (fun _ => True) tree :=
    Cache.agrees_empty _ tree
  rw [(Workspace.checkFile_of_callSites hws hname hcalls hcaller htemplate).1]
  rfl

end Files

end TemplateAtlas
