import TemplateAtlas.Proofs.SortedMap
import TemplateAtlas.Proofs.Template.Comment
import TemplateAtlas.Template.Parameter
import TemplateAtlas.Template.Reference
import TemplateAtlas.Template.Repository
import TemplateAtlas.Template.Usage

/-!
# Lines that carry something, and their numbers

Everything that is read of a template is read of the lines that carry something, and the numbers of
these lines are only handed on: who renumbers the lines finds the same, with the numbers changed.
-/

namespace TemplateAtlas.Template

open TemplateAtlas.Text

/-! ### The lines that carry something -/

/-- The lines that carry something, when the first has the number `first`. -/
def carryingFrom (first : Nat) (lines : List (List Char)) : List BlockLine :=
  (lines.zipIdx first).filterMap fun (line, number) =>
    if isIgnorable line then none else some ⟨number, stripComment line⟩

theorem carryingLines_eq (lines : List (List Char)) : carryingLines lines = carryingFrom 0 lines :=
  rfl

@[simp] theorem carryingFrom_nil (first : Nat) : carryingFrom first [] = [] := rfl

theorem carryingFrom_cons (first : Nat) (line : List Char) (lines : List (List Char)) :
    carryingFrom first (line :: lines) =
      if isIgnorable line then carryingFrom (first + 1) lines
      else ⟨first, stripComment line⟩ :: carryingFrom (first + 1) lines := by
  rw [carryingFrom, List.zipIdx_cons, List.filterMap_cons]
  by_cases h : isIgnorable line = true
  · simp [h, carryingFrom]
  · simp [h, carryingFrom]

theorem carryingFrom_append (first : Nat) (lines lines' : List (List Char)) :
    carryingFrom first (lines ++ lines') =
      carryingFrom first lines ++ carryingFrom (first + lines.length) lines' := by
  rw [carryingFrom, List.zipIdx_append, List.filterMap_append]
  rfl

/-- Lines that carry nothing leave nothing. -/
theorem carryingFrom_of_ignorable {lines : List (List Char)}
    (h : ∀ line ∈ lines, isIgnorable line = true) (first : Nat) :
    carryingFrom first lines = [] := by
  induction lines generalizing first with
  | nil => rfl
  | cons line lines ih =>
    rw [carryingFrom_cons, if_pos (h line (by simp)), ih fun other hother =>
      h other (by simp [hother])]

/-- Comments play no part. -/
theorem carryingFrom_map_stripComment (first : Nat) (lines : List (List Char)) :
    carryingFrom first (lines.map stripComment) = carryingFrom first lines := by
  induction lines generalizing first with
  | nil => rfl
  | cons line lines ih => simp [carryingFrom_cons, ih]

/-! ### Renumbering -/

section Renumber

variable (f : Nat → Nat)

/-- The line with another number. -/
def BlockLine.renumber (l : BlockLine) : BlockLine :=
  { l with number := f l.number }

/-- The item with other numbers. -/
def Item.renumber (item : Item) : Item :=
  { item with line := f item.line, body := item.body.map (BlockLine.renumber f) }

/-- The declaration with another line. -/
def ParameterDeclaration.renumber (p : ParameterDeclaration) : ParameterDeclaration :=
  { p with line := f p.line }

/-- The reference with another line. -/
def TemplateReference.renumber (r : TemplateReference) : TemplateReference :=
  { r with line := f r.line }

/-- The passed parameter with another line. -/
def PassedParameter.renumber (p : PassedParameter) : PassedParameter :=
  { p with line := f p.line }

theorem BlockLine.map_renumber_id (ls : List BlockLine) : ls.map (BlockLine.renumber id) = ls :=
  List.map_id ls

theorem PassedParameter.map_renumber_id (ps : List PassedParameter) :
    ps.map (PassedParameter.renumber id) = ps :=
  List.map_id ps

theorem map_renumber_carryingFrom {first first' : Nat} {lines : List (List Char)}
    (h : ∀ i < lines.length, f (first + i) = first' + i) :
    (carryingFrom first lines).map (BlockLine.renumber f) = carryingFrom first' lines := by
  induction lines generalizing first first' with
  | nil => rfl
  | cons line lines ih =>
    have hrest : (carryingFrom (first + 1) lines).map (BlockLine.renumber f) =
        carryingFrom (first' + 1) lines := by
      refine ih fun i hi => ?_
      have := h (i + 1) (by simpa using hi)
      rw [Nat.add_assoc, Nat.add_comm 1 i, this]
      omega
    have hfirst : f first = first' := h 0 (by simp)
    rw [carryingFrom_cons, carryingFrom_cons]
    split
    · exact hrest
    · rw [List.map_cons, hrest, BlockLine.renumber, hfirst]

namespace BlockLine

variable (l : BlockLine)

@[simp] theorem text_renumber : (l.renumber f).text = l.text := rfl

@[simp] theorem number_renumber : (l.renumber f).number = f l.number := rfl

@[simp] theorem indent_renumber : (l.renumber f).indent = l.indent := rfl

@[simp] theorem content_renumber : (l.renumber f).content = l.content := rfl

@[simp] theorem isUnder_renumber (column : Nat) :
    (l.renumber f).isUnder column = l.isUnder column :=
  rfl

@[simp] theorem isTopLevel_renumber (key : List Char) :
    (l.renumber f).isTopLevel key = l.isTopLevel key :=
  rfl

@[simp] theorem opensRepositories_renumber :
    (l.renumber f).opensRepositories = l.opensRepositories :=
  rfl

@[simp] theorem keyEntry?_renumber (column : Nat) :
    BlockLine.keyEntry? column (l.renumber f) = l.keyEntry? column := rfl

end BlockLine

variable (ls : List BlockLine)

@[simp] theorem topLevelBlock_renumber (key : List Char) :
    topLevelBlock key (ls.map (BlockLine.renumber f)) =
      (topLevelBlock key ls).map (BlockLine.renumber f) := by
  simp only [topLevelBlock, linesAfter, List.dropWhile_map, List.takeWhile_map, ← List.map_tail]
  rfl

@[simp] theorem leastIndent_renumber :
    leastIndent (ls.map (BlockLine.renumber f)) = leastIndent ls := by
  rw [leastIndent, List.map_map]
  rfl

@[simp] theorem dedent_renumber : dedent (ls.map (BlockLine.renumber f)) = dedent ls := by
  simp [dedent, Function.comp_def]

theorem Item.ofLine_renumber (l : BlockLine) (body : List BlockLine) :
    Item.ofLine (l.renumber f) (body.map (BlockLine.renumber f)) =
      (Item.ofLine l body).renumber f := by
  rw [Item.ofLine, Item.ofLine, BlockLine.content_renumber]
  by_cases h : isDash l.content = true
  · rw [if_pos h, if_pos h]
    rfl
  · rw [if_neg h, if_neg h]
    rfl

theorem itemsFrom_renumber (column : Nat) :
    itemsFrom column (ls.map (BlockLine.renumber f)) =
      ((itemsFrom column ls).1.map (BlockLine.renumber f),
        (itemsFrom column ls).2.map (Item.renumber f)) := by
  induction ls with
  | nil => rfl
  | cons l ls ih =>
    simp only [List.map_cons, itemsFrom, ih, BlockLine.indent_renumber]
    split
    · simp [Item.ofLine_renumber]
    · simp

@[simp] theorem itemsOf_renumber :
    itemsOf (ls.map (BlockLine.renumber f)) = (itemsOf ls).map (Item.renumber f) := by
  rw [itemsOf, itemsOf, leastIndent_renumber]
  cases leastIndent ls with
  | none => rfl
  | some column => simp [itemsFrom_renumber]

theorem fieldsFrom_renumber (column : Nat) :
    fieldsFrom column (ls.map (BlockLine.renumber f)) =
      ((fieldsFrom column ls).1.map (BlockLine.renumber f), (fieldsFrom column ls).2) := by
  induction ls with
  | nil => rfl
  | cons l ls ih =>
    simp only [List.map_cons, fieldsFrom, ih, BlockLine.keyEntry?_renumber]
    cases l.keyEntry? column with
    | none => simp
    | some e => simp

@[simp] theorem Item.fields_renumber (item : Item) : (item.renumber f).fields = item.fields := by
  have hcolumn : (item.renumber f).keyColumn = item.keyColumn := by
    simp [Item.keyColumn, Item.renumber]
  rw [Item.fields, hcolumn, Item.fields]
  simp only [Item.renumber, fieldsFrom_renumber, dedent_renumber]

/-! ### What is read of renumbered lines -/

theorem parameterOfItem?_renumber (item : Item) :
    parameterOfItem? (item.renumber f) =
      (parameterOfItem? item).map (ParameterDeclaration.renumber f) := by
  have hdashed : (item.renumber f).dashed = item.dashed := rfl
  rw [parameterOfItem?, parameterOfItem?, hdashed, Item.fields_renumber]
  split
  · unfold parameterOfFields?
    split
    · rfl
    · split <;> rfl
  · simp only [Item.renumber, Option.map_map]
    congr 1
    funext e
    simp only [parameterOfEntry, Function.comp_apply, dedent_renumber]
    split <;> rfl

theorem parametersIn_renumber :
    parametersIn (ls.map (BlockLine.renumber f)) =
      (parametersIn ls).map (ParameterDeclaration.renumber f) := by
  simp only [parametersIn, topLevelBlock_renumber, itemsOf_renumber, List.filterMap_map,
    List.map_filterMap]
  congr 1
  funext item
  exact parameterOfItem?_renumber f item

theorem repositoryBlock_renumber :
    repositoryBlock (ls.map (BlockLine.renumber f)) =
      (repositoryBlock ls).map (BlockLine.renumber f) := by
  simp only [repositoryBlock, topLevelBlock_renumber, List.dropWhile_map]
  have hsame : ((fun l : BlockLine => !l.opensRepositories) ∘ BlockLine.renumber f) = fun l =>
      !l.opensRepositories :=
    rfl
  rw [hsame]
  cases (topLevelBlock "resources".toList ls).dropWhile fun l => !l.opensRepositories with
  | nil => rfl
  | cons header rest =>
    simp only [List.map_cons, List.takeWhile_map, BlockLine.indent_renumber]
    rfl

theorem repositoryOfItem?_renumber (item : Item) :
    repositoryOfItem? (item.renumber f) = repositoryOfItem? item := by
  have hdashed : (item.renumber f).dashed = item.dashed := rfl
  rw [repositoryOfItem?, repositoryOfItem?, hdashed, Item.fields_renumber]

theorem referenceOfLine?_renumber (line : List Char) (number : Nat) :
    referenceOfLine? line (f number) =
      (referenceOfLine? line number).map (TemplateReference.renumber f) := by
  unfold referenceOfLine?
  split
  · rfl
  · split <;> rfl

end Renumber

/-! ### References and usages -/

/-- The references are those of the lines that carry something. -/
theorem referencesIn_eq (lines : List (List Char)) :
    referencesIn lines = (carryingLines lines).filterMap fun l =>
      referenceOfLine? l.text l.number := by
  rw [referencesIn, carryingLines, List.filterMap_filterMap]
  congr 1
  funext ⟨line, number⟩
  by_cases h : isIgnorable line = true
  · have hnone : templateValue? [] = none := by decide
    simp [h, referenceOfLine?, isIgnorable_iff.1 h, hnone]
  · simp [h, referenceOfLine?]

/-- The names are those that the lines that carry something use. -/
theorem flatMap_usagesOfLine (first : Nat) (lines : List (List Char)) :
    lines.flatMap usagesOfLine = (carryingFrom first lines).flatMap fun l =>
      usagesOfLine l.text := by
  induction lines generalizing first with
  | nil => rfl
  | cons line lines ih =>
    rw [List.flatMap_cons, carryingFrom_cons, ih (first + 1)]
    split
    next h =>
      have hnone : usagesOfLine line = [] := by
        rw [usagesOfLine, isIgnorable_iff.1 h]
        rfl
      rw [hnone, List.nil_append]
    next => simp [usagesOfLine]

/-! ### Passed parameters -/

section Arguments

variable (column : Nat)

/-- The parameters are passed by lines that carry something. -/
theorem argumentsFrom_eq (state : CallSiteState) (first : Nat) (lines : List (List Char)) :
    argumentsFrom column state (lines.zipIdx first) =
      argumentsFrom column state ((carryingFrom first lines).map fun l => (l.text, l.number)) := by
  induction lines generalizing state first with
  | nil => rfl
  | cons line lines ih =>
    rw [List.zipIdx_cons, carryingFrom_cons]
    by_cases h : isIgnorable line = true
    · rw [if_pos h, argumentsFrom, isIgnorable_dropReturns, if_pos h, ih]
    · rw [if_neg h, List.map_cons, argumentsFrom, argumentsFrom]
      simp only [h, if_false, isIgnorable_dropReturns, isIgnorable_stripComment,
        stripComment_dropReturns, stripComment_stripComment, ih, Bool.false_eq_true]

/-- The numbers of the lines are only handed on. -/
theorem argumentsFrom_renumber (f : Nat → Nat) (state : CallSiteState) (ls : List BlockLine) :
    argumentsFrom column state ((ls.map (BlockLine.renumber f)).map fun l => (l.text, l.number)) =
      (argumentsFrom column state (ls.map fun l => (l.text, l.number))).map
        (PassedParameter.renumber f) := by
  have hentry : ∀ entryColumn content number indent,
      argumentsFrom.argumentOf entryColumn content (f number) indent =
        (argumentsFrom.argumentOf entryColumn content number indent).map
          (PassedParameter.renumber f) := by
    intro entryColumn content number indent
    unfold argumentsFrom.argumentOf
    split
    · rfl
    · rw [Option.map_map]
      rfl
  have htoList : ∀ p? : Option PassedParameter,
      (p?.map (PassedParameter.renumber f)).toList =
        p?.toList.map (PassedParameter.renumber f) := by
    rintro (_ | p) <;> rfl
  induction ls generalizing state with
  | nil => rfl
  | cons l ls ih =>
    simp only [List.map_cons, BlockLine.text_renumber, BlockLine.number_renumber,
      argumentsFrom, hentry, ih]
    -- no branch looks at the number: they differ in the state that the rest is read in
    repeat' split
    all_goals simp [htoList, Function.comp_def, PassedParameter.renumber]

end Arguments

end TemplateAtlas.Template
