import TemplateAtlas.Proofs.Template.Renumber

/-!
# Edits that say nothing

A line that carries nothing may be inserted anywhere, and a comment may be appended to any line that
ends outside quotes. Nothing that is read of a template changes, but for the numbers of the lines
behind an inserted one (`Edit.reading`).
-/

namespace TemplateAtlas.Template

open TemplateAtlas.Text

/-- The second list of lines is the first one after an edit that says nothing. The number of every
line turns into the one that the function gives. -/
inductive Edit : List (List Char) → List (List Char) → (Nat → Nat) → Prop where
  /-- A line is inserted that is blank or whose first character other than a blank is `#`. -/
  | insert (before after : List (List Char)) {line : List Char}
      (h : ∀ c ∈ line.find? (!isBlank ·), c = '#') :
    Edit (before ++ after) (before ++ line :: after) fun n => if n < before.length then n else n + 1
  /-- A blank, `#` and any text are appended to a line that ends outside quotes. -/
  | append (before after : List (List Char)) {line : List Char} (h : endsOutsideQuotes line = true)
    (text : List Char) : Edit (before ++ line :: after)
    (before ++ (line ++ ' ' :: '#' :: text) :: after) id

/-! ### Lines that say the same -/

section Alike

variable {line : List Char} {lines lines' : List (List Char)}

/-- A line that is blank or opens with a comment carries nothing. -/
theorem isIgnorable_of_find? (h : ∀ c ∈ line.find? (!isBlank ·), c = '#') :
    isIgnorable line = true := by
  rcases blank_or_exists_first line with hblank | ⟨bs, c, rest, hbs, hc, rfl⟩
  · rw [isIgnorable_iff, stripComment, cutComment_of_blank _ _ hblank, trimEnd_eq_nil hblank]
  · have hfind : (bs ++ c :: rest).find? (!isBlank ·) = some c := by
      rw [List.find?_append, List.find?_eq_none.2 fun b hb => by simp [hbs b hb]]
      simp [hc]
    have htrim : trim (bs ++ c :: rest) = c :: trimEnd rest := by
      rw [trim, trimStart_append_cons hbs hc]
      exact trimEnd_append_cons [] hc rest
    rw [isIgnorable, htrim]
    exact decide_eq_true (h c hfind)

theorem carryingFrom_congr (first : Nat) (h : lines'.map stripComment = lines.map stripComment) :
    carryingFrom first lines' = carryingFrom first lines := by
  rw [← carryingFrom_map_stripComment, h, carryingFrom_map_stripComment]

theorem callSiteColumn?_stripComment (line : List Char) :
    callSiteColumn? (stripComment line) = callSiteColumn? line := by
  rw [callSiteColumn?, callSiteColumn?, stripComment_dropReturns, stripComment_dropReturns,
    stripComment_stripComment]

/-- The arguments of a call site come from the lines after it that carry something. -/
theorem argumentsAt_eq (lines : List (List Char)) (n : Nat) :
    argumentsAt lines n =
      match lines[n]?.bind callSiteColumn? with
      | none => []
      | some column => argumentsFrom column .outside
          ((carryingFrom (n + 1) (lines.drop (n + 1))).map fun l => (l.text, l.number)) := by
  have hdrop : lines.zipIdx.drop n = (lines.drop n).zipIdx n := by
    refine List.ext_getElem? fun i => ?_
    rw [List.getElem?_drop, List.getElem?_zipIdx, List.getElem?_zipIdx,
      List.getElem?_drop, Nat.zero_add]
  rw [argumentsAt, hdrop, ← List.drop_drop, ← List.head?_drop]
  cases lines.drop n with
  | nil => rfl
  | cons header rest =>
    simp only [List.zipIdx_cons, List.head?_cons, Option.bind_some, List.drop_one, List.tail_cons]
    cases callSiteColumn? header with
    | none => rfl
    | some column => exact argumentsFrom_eq column .outside (n + 1) rest

theorem argumentsAt_renumber (f : Nat → Nat) {n n' : Nat}
    (header : lines'[n']?.map stripComment = lines[n]?.map stripComment)
    (rest : carryingFrom (n' + 1) (lines'.drop (n' + 1)) =
      (carryingFrom (n + 1) (lines.drop (n + 1))).map (BlockLine.renumber f)) :
    argumentsAt lines' n' = (argumentsAt lines n).map (PassedParameter.renumber f) := by
  have hstripped : ∀ o : Option (List Char), o.bind callSiteColumn? =
      (o.map stripComment).bind callSiteColumn? := by
    intro o
    simp only [Option.bind_map, Function.comp_def, callSiteColumn?_stripComment]
  have hcolumn : lines'[n']?.bind callSiteColumn? = lines[n]?.bind callSiteColumn? := by
    rw [hstripped, header, ← hstripped]
  rw [argumentsAt_eq, argumentsAt_eq, hcolumn, rest]
  cases lines[n]?.bind callSiteColumn? with
  | none => rfl
  | some column => exact argumentsFrom_renumber column f .outside _

end Alike

/-! ### What an edit does to the lines that carry something -/

namespace Edit

variable {lines lines' : List (List Char)} {shift : Nat → Nat}

/-- Of an inserted line that carries nothing only the numbers behind it bear witness. -/
theorem carryingFrom_insert {line : List Char} (h : isIgnorable line = true) (first : Nat)
    (before after : List (List Char)) {f : Nat → Nat}
    (hf : ∀ n, first ≤ n → f n = if n < first + before.length then n else n + 1) :
    carryingFrom first (before ++ line :: after) =
      (carryingFrom first (before ++ after)).map (BlockLine.renumber f) := by
  have hbefore : (carryingFrom first before).map (BlockLine.renumber f) =
      carryingFrom first before := by
    refine map_renumber_carryingFrom f fun i hi => ?_
    rw [hf _ (by omega), if_pos (by omega)]
  have hafter : (carryingFrom (first + before.length) after).map (BlockLine.renumber f) =
      carryingFrom (first + before.length + 1) after := by
    refine map_renumber_carryingFrom f fun i _ => ?_
    rw [hf _ (by omega), if_neg (by omega)]
    omega
  rw [carryingFrom_append, carryingFrom_append, List.map_append, hbefore, hafter,
    carryingFrom_cons, if_pos h]

/-- The lines that say something stay, with their new numbers. -/
theorem carryingLines_eq (h : Edit lines lines' shift) :
    carryingLines lines' = (carryingLines lines).map (BlockLine.renumber shift) := by
  cases h with
  | @insert before after line hline =>
    exact carryingFrom_insert (isIgnorable_of_find? hline) 0 before after fun n _ => by
      rw [Nat.zero_add]
  | @append before after line hline text =>
    rw [BlockLine.map_renumber_id]
    exact carryingFrom_congr 0 (by simp [stripComment_append_comment hline])

/-- A line that carries nothing passes nothing, whether it stands before the call site or behind
it. -/
theorem argumentsAt_insert {line : List Char} (h : isIgnorable line = true)
    (before after : List (List Char)) (n : Nat) :
    let shift := fun m => if m < before.length then m else m + 1
    argumentsAt (before ++ line :: after) (shift n) =
      (argumentsAt (before ++ after) n).map (PassedParameter.renumber shift) := by
  intro shift
  by_cases hn : n < before.length
  · -- the call site stays, and the line may stand among its arguments
    have hshift : shift n = n := if_pos hn
    rw [hshift]
    refine argumentsAt_renumber _ ?_ ?_
    · rw [List.getElem?_append_left hn, List.getElem?_append_left hn]
    · rw [List.drop_append_of_le_length hn, List.drop_append_of_le_length hn]
      refine carryingFrom_insert h _ _ _ fun m _ => ?_
      have hlength : n + 1 + (before.drop (n + 1)).length = before.length := by
        rw [List.length_drop]
        omega
      rw [hlength]
  · -- the call site moves down with everything behind it
    have hshift : shift n = n + 1 := if_neg hn
    rw [hshift]
    obtain ⟨j, rfl⟩ := Nat.exists_eq_add_of_le (Nat.le_of_not_lt hn)
    refine argumentsAt_renumber _ ?_ ?_
    · rw [Nat.add_assoc, List.getElem?_append_right (by omega),
        List.getElem?_append_right (by omega)]
      simp
    · have hdrop : (before ++ line :: after).drop (before.length + j + 1 + 1) =
          after.drop (j + 1) := by
        rw [Nat.add_assoc, Nat.add_assoc, List.drop_append]
        simp
      have hdrop' : (before ++ after).drop (before.length + j + 1) = after.drop (j + 1) := by
        rw [Nat.add_assoc, List.drop_append]
        simp
      rw [hdrop, hdrop']
      refine (map_renumber_carryingFrom _ fun i _ => ?_).symm
      have hbehind : ¬before.length + j + 1 + i < before.length := by omega
      simp only [shift, if_neg hbehind]
      omega

/-- Lines that are the same without their comments pass the same. -/
theorem argumentsAt_congr (h : lines'.map stripComment = lines.map stripComment) (n : Nat) :
    argumentsAt lines' n = argumentsAt lines n := by
  rw [← PassedParameter.map_renumber_id (argumentsAt lines n)]
  refine argumentsAt_renumber id ?_ ?_
  · rw [← List.getElem?_map, h, List.getElem?_map]
  · rw [BlockLine.map_renumber_id]
    exact carryingFrom_congr _ (by rw [List.map_drop, h, List.map_drop])

theorem argumentsAt_eq (h : Edit lines lines' shift) (n : Nat) :
    argumentsAt lines' (shift n) = (argumentsAt lines n).map (PassedParameter.renumber shift) := by
  cases h with
  | @insert before after line hline =>
    exact argumentsAt_insert (isIgnorable_of_find? hline) before after n
  | @append before after line hline text =>
    rw [PassedParameter.map_renumber_id]
    exact argumentsAt_congr (by simp [stripComment_append_comment hline]) n

/-- Nothing that is read of a template changes with the edit, but for the numbers of the lines. -/
theorem reading {text text' : String} (h : Edit (linesOf text) (linesOf text') shift) :
    parameters text' = (parameters text).map (ParameterDeclaration.renumber shift) ∧
      references text' = (references text).map (TemplateReference.renumber shift) ∧
      repositoryAliases text' = repositoryAliases text ∧
      usages text' = usages text ∧
      isPipelineRoot text' = isPipelineRoot text ∧
      ∀ n, (passedParameters (linesOf text') (shift n)).entries =
        (passedParameters (linesOf text) n).entries.map fun e => (e.1, e.2.renumber shift) := by
  have hlines : BlockLine.ofText text' = (BlockLine.ofText text).map (BlockLine.renumber shift) :=
    h.carryingLines_eq
  refine ⟨?_, ?_, ?_, ?_, ?_, fun n => ?_⟩
  · rw [parameters, hlines, parametersIn_renumber, parameters]
  · rw [references, references, referencesIn_eq, referencesIn_eq, h.carryingLines_eq,
      List.filterMap_map, List.map_filterMap]
    congr 1
    funext l
    exact referenceOfLine?_renumber shift l.text l.number
  · rw [repositoryAliases, repositoryAliases, hlines, repositoryBlock_renumber, itemsOf_renumber,
      List.filterMap_map]
    congr 2
    funext item
    exact repositoryOfItem?_renumber shift item
  · have hnames : (linesOf text').flatMap usagesOfLine = (linesOf text).flatMap usagesOfLine := by
      rw [flatMap_usagesOfLine 0, flatMap_usagesOfLine 0, ← Template.carryingLines_eq,
        h.carryingLines_eq, List.flatMap_map]
      rfl
    rw [usages, hnames, usages]
  · rw [isPipelineRoot, hlines, List.any_map, isPipelineRoot]
    rfl
  · rw [passedParameters, h.argumentsAt_eq, passedParameters, ← SortedMap.entries_ofListFirst_map,
      List.map_map, List.map_map]
    rfl

/-- A comment above a declaration moves it down. -/
theorem reading_of_comment :
    let shift := fun n => if n < 1 then n else n + 1
    Edit (linesOf "parameters:\n- name: a") (linesOf "parameters:\n# b\n- name: a") shift ∧
      parameters "parameters:\n# b\n- name: a" =
        (parameters "parameters:\n- name: a").map (ParameterDeclaration.renumber shift) := by
  intro shift
  have hlines : linesOf "parameters:\n- name: a" =
      ["parameters:".toList] ++ ["- name: a".toList] := by decide +kernel
  have hlines' : linesOf "parameters:\n# b\n- name: a" =
      ["parameters:".toList] ++ "# b".toList :: ["- name: a".toList] := by decide +kernel
  have h : Edit (linesOf "parameters:\n- name: a")
      (linesOf "parameters:\n# b\n- name: a") shift := by
    rw [hlines, hlines']
    exact .insert _ _ fun c hc => (Option.some.inj (show some '#' = some c from hc)).symm
  exact ⟨h, h.reading.1⟩

end Edit

end TemplateAtlas.Template
