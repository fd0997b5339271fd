import TemplateAtlas.Proofs.Template.Declarations
import TemplateAtlas.Proofs.Template.Flow
import TemplateAtlas.Proofs.Template.Opening

/-!
# On one line or on several

The values of a parameter stand on lines of their own, or in brackets on the line of the key; the
arguments of a call stand on lines of their own, or in braces on the line of the key:

    values: ['a', 'b']              parameters: { x: 'a', y: 'b' }

    values:                         parameters:
    - 'a'                             x: 'a'
    - 'b'                             y: 'b'

The lines are read back whatever the strings hold, but on one line a string with a comma is cut in
two. So both ways of writing are read alike exactly when no string holds a comma
(`spellings_agree_iff`). For declarations everything but the values is read back in both cases
(`WrittenParameter.parameterOfFields?_map`); for calls, what follows the arguments adds the same to
both (`OpenCall.pairsAfter`).
-/

namespace TemplateAtlas.Template

open TemplateAtlas.Text

/-! ### Values of a parameter -/

section Values

variable {column : Nat}

/-- The strings that a parameter is restricted to. -/
def Declared.valueTexts (d : Declared column) : List LineText :=
  (d.values?.getD []).map (·.value)

/-- The key `values` with a list in brackets. -/
def KeyLines.flowValues (column : Nat) (values : List (List Char))
    (h : ∀ value ∈ values, IsOneLine value) : KeyLines column where
  content := "values: ".toList ++ flowList values
  entry := ⟨"values".toList, flowList values⟩
  nested := []
  opens := ⟨'v', _, rfl, by decide⟩
  closes := forall_mem_of_eq_some
    (by rw [List.getLast?_append, getLast?_flowList, Option.some_or]) (by decide)
  quiet := (isQuiet_of_isPlain (by decide)).append (isQuiet_flowList values)
  oneLine := isOneLine_append.2 ⟨by decide, isOneLine_flowList h⟩
  states := @ofContent?_of_trim "values".toList (by decide) (List.all_eq_true.1 (by decide))
    (flowList values) (by simp [flowList]) (trim_flowList values)
  under := isNested_of_mem_nil column

namespace WrittenParameter

variable (p : WrittenParameter column)

/-- What is written for a key, with the values in brackets. -/
def flowPart (part : Part column) : KeyLines column :=
  if part.key = .values then
    .flowValues column (p.declared.valueTexts.map (·.1.toList))
      (List.forall_mem_map.2 fun value _ => value.2)
  else part.keyLines

/-- The item with the values in brackets. -/
def flowItem : KeyItem column :=
  ⟨p.flowPart p.item.first, p.item.others.map p.flowPart⟩

/-- The values that are read of the brackets. -/
def flowAllowed : List String :=
  (flowItems (flowList (p.declared.valueTexts.map (·.1.toList)))).map String.ofList

/-- Nothing but the values is read in another way. -/
theorem parameterOfFields?_flowItem (line : Nat) :
    parameterOfFields? p.flowItem.fields line =
      some { p.declared.declaration line with allowed := p.flowAllowed } := by
  have hkeys : p.flowItem.first :: p.flowItem.others = p.item.parts.map p.flowPart := rfl
  have hkey : ∀ part, (p.flowPart part).field.key = part.key.text := by
    intro part
    rw [flowPart]
    split
    next h =>
      rw [h]
      rfl
    next => rfl
  have hfield : ∀ part : Part column, part.key ≠ .values →
      (p.flowPart part).field = part.field := by
    intro part h
    rw [flowPart, if_neg h]
    rfl
  have hvalues : ∀ values, (p.flowPart (.values values)).field.valueList =
      flowItems (flowList (p.declared.valueTexts.map (·.1.toList))) := by
    intro values
    have hkey : (Part.values values : Part column).key = .values := rfl
    rw [flowPart, if_pos hkey, Field.valueList]
    exact if_pos rfl
  rw [KeyItem.fields, hkeys, List.map_map,
    p.parameterOfFields?_map (KeyLines.field ∘ p.flowPart) hkey hfield]
  simp only [Function.comp_apply, hvalues, flowAllowed]
  cases hnone : p.declared.values? with
  | none =>
    have hempty : p.declared.valueTexts = [] := by
      rw [Declared.valueTexts, hnone]
      rfl
    rw [hempty, List.map_nil, flowItems_flowList, List.flatMap_nil, Option.map_none,
      Option.getD_none]
  | some values => rw [Option.map_some, Option.getD_some]

theorem allowed_declaration (line : Nat) :
    (p.declared.declaration line).allowed = p.declared.valueTexts.map (·.1) := by
  rw [Declared.declaration, Declared.valueTexts]
  cases p.declared.values? with
  | none => rfl
  | some values => simp

/-- The values in brackets are read back, if and only if none of them holds a comma. -/
theorem flowAllowed_eq_iff :
    p.flowAllowed = p.declared.valueTexts.map (·.1) ↔
      ∀ value ∈ p.declared.valueTexts, ',' ∉ value.1.toList := by
  have hne : ∀ value ∈ p.declared.valueTexts.map (·.1.toList), value ≠ [] := by
    rw [List.forall_mem_map]
    intro text htext
    obtain ⟨value, -, rfl⟩ := List.mem_map.1 htext
    simpa using value.value_ne
  have htexts : p.declared.valueTexts.map (·.1) =
      (p.declared.valueTexts.map (·.1.toList)).map String.ofList := by
    simp [Function.comp_def]
  have hinjective : Function.Injective String.ofList := fun _ _ => String.ofList_inj.1
  rw [flowAllowed, htexts, (List.map_injective_iff.2 hinjective).eq_iff,
    flowItems_flowList_eq_iff hne, List.forall_mem_map]

end WrittenParameter

/-- The lines of the block that declares parameters, with values in brackets. -/
def flowBlockLines (written : List (WrittenParameter column)) : List (List Char) :=
  "parameters:".toList :: written.flatMap (·.flowItem.lines)

theorem allowed_blockLines (written : List (WrittenParameter column)) (ended : Bool) :
    (parameters (textOf (blockLines written) ended)).map (·.allowed) =
      written.map fun p => p.declared.valueTexts.map (·.1) := by
  have hread := parameters_keyItems (fun p : WrittenParameter column => p.item.keyItem)
    WrittenParameter.parameterOfFields?_keyItem written ended
  simp only [WrittenItem.lines_keyItem] at hread
  conv_rhs => rw [← map_snd_placed (fun p => p.item.keyItem.height) 1 written]
  rw [blockLines, hread, List.map_map, List.map_map]
  exact List.map_congr_left fun q _ => q.2.allowed_declaration q.1

theorem allowed_flowBlockLines (written : List (WrittenParameter column)) (ended : Bool) :
    (parameters (textOf (flowBlockLines written) ended)).map (·.allowed) =
      written.map (·.flowAllowed) := by
  have hread := parameters_keyItems (fun p : WrittenParameter column => p.flowItem)
    WrittenParameter.parameterOfFields?_flowItem written ended
  conv_rhs => rw [← map_snd_placed (fun p => p.flowItem.height) 1 written]
  rw [flowBlockLines, hread, List.map_map, List.map_map]
  simp only [Function.comp_def]

end Values

/-! ### Arguments of a call -/

/-- A call in a file, with the lines that stand before it and behind its arguments. -/
structure OpenCall where
  /-- The lines before the call. -/
  before : List (List Char)
  /-- The line that opens the call. -/
  header : List Char
  /-- The column of its key. -/
  column : Nat
  /-- The line is a call site. -/
  header_eq : callSiteColumn? header = some column
  /-- The lines behind the arguments. -/
  after : List (List Char)
  /-- The first of them that carries something is not deeper than the key, so it is no argument. -/
  after_left : ∀ l ∈ (carryingLines after).head?, l.indent ≤ column

/-- Arguments with different names. -/
structure ArgumentMap where
  /-- The names with their strings. -/
  entries : List NamedText
  /-- No name occurs twice. -/
  nodup : (entries.map (·.name)).Nodup

namespace OpenCall

/-- The line of the call. -/
def line (call : OpenCall) : Nat :=
  call.before.length

/-- The lines of the file, with the arguments in braces. -/
def flowLines (call : OpenCall) (arguments : ArgumentMap) : List (List Char) :=
  call.before ++ call.header ::
    (spaces call.column ++ ("parameters: ".toList ++ flowMap arguments.entries)) :: call.after

/-- The lines of the file, with the arguments on lines of their own, which are deeper than the
key. -/
def blockLines (call : OpenCall) (offset : Nat) (arguments : ArgumentMap) : List (List Char) :=
  call.before ++ call.header :: (spaces call.column ++ "parameters:".toList) ::
    (arguments.entries.map (fun a => spaces (call.column + offset + 1) ++ a.content) ++ call.after)

end OpenCall

section Arguments

/-- The names and values that are passed at a call site. -/
def pairsAt (lines : List (List Char)) (n : Nat) : List (String × String) :=
  (argumentsAt lines n).map fun p => (p.name, p.value)

theorem find?_passedParameters (lines : List (List Char)) (n : Nat) (name : String) :
    ((passedParameters lines n).find? name).map (fun p => (p.name, p.value)) =
      (pairsAt lines n).find? fun pair => pair.1 = name := by
  have hkey : (fun e : String × PassedParameter => compare name e.1 == .eq) ∘
      (fun p => (p.name, p)) =
      (fun pair : String × String => decide (pair.1 = name)) ∘ fun p : PassedParameter =>
        (p.name, p.value) := by
    funext p
    rw [Function.comp_apply, Function.comp_apply, Bool.eq_iff_iff, beq_iff_eq,
      Std.compare_eq_iff_eq, decide_eq_true_eq]
    exact eq_comm
  rw [passedParameters, SortedMap.find?_ofListFirst, pairsAt, List.find?_map, List.find?_map, hkey,
    Option.map_map, Option.map_map]
  rfl

/-- Names and values do not depend on where the lines stand. -/
theorem pairs_argumentsFrom (column : Nat) (state : CallSiteState) (first : Nat)
    (lines : List (List Char)) :
    (argumentsFrom column state (lines.zipIdx first)).map (fun p => (p.name, p.value)) =
      (argumentsFrom column state (lines.zipIdx 0)).map fun p => (p.name, p.value) := by
  have hnumbers : (carryingFrom 0 lines).map (BlockLine.renumber (first + ·)) =
      carryingFrom first lines :=
    map_renumber_carryingFrom _ fun i _ => by omega
  rw [argumentsFrom_eq, argumentsFrom_eq, ← hnumbers, argumentsFrom_renumber, List.map_map]
  rfl

/-- Where the first line is not deeper than the key, it makes no difference in which state the scan
comes to it. -/
theorem argumentsFrom_of_left {column first : Nat} {lines : List (List Char)}
    (h : ∀ l ∈ (carryingLines lines).head?, l.indent ≤ column) (state : CallSiteState) :
    argumentsFrom column state (lines.zipIdx first) =
      argumentsFrom column .outside (lines.zipIdx first) := by
  have hnumbers : (carryingFrom 0 lines).map (BlockLine.renumber (first + ·)) =
      carryingFrom first lines :=
    map_renumber_carryingFrom _ fun i _ => by omega
  rw [argumentsFrom_eq, argumentsFrom_eq, ← hnumbers, argumentsFrom_renumber,
    argumentsFrom_renumber]
  refine congrArg _ ?_
  rw [carryingLines_eq] at h
  cases hlines : carryingFrom 0 lines with
  | nil => rfl
  | cons l ls =>
    rw [hlines] at h
    have hindent : indentOf l.text ≤ column := h l rfl
    obtain ⟨line, -, hcarries, hl⟩ := exists_of_mem_carryingFrom (hlines ▸ List.mem_cons_self)
    have htext : l.text = stripComment line := congrArg BlockLine.text hl
    rw [htext] at hindent
    rw [List.map_cons, argumentsFrom, argumentsFrom]
    simp only [htext, isIgnorable_dropReturns, isIgnorable_stripComment, hcarries,
      stripComment_dropReturns, stripComment_stripComment, Bool.false_eq_true, if_false]
    rcases Nat.lt_or_eq_of_le hindent with hlt | heq
    · simp only [hlt, if_true]
    · simp only [heq, Nat.lt_irrefl, if_false, if_true]

namespace NamedText

variable (a : NamedText)

theorem head?_content : a.content.head? ≠ some '-' := by
  obtain ⟨c, cs, heq⟩ := List.exists_cons_of_ne_nil (ne_nil_of_isIdentifier a.isIdentifier)
  have hc : isAsciiWord c = true := isAsciiWord_of_isIdentifier a.isIdentifier c (by simp [heq])
  rw [content, heq]
  exact fun hdash => ne_of_isAsciiWord hc (by decide) (Option.some.inj hdash)

theorem standsAt (column : Nat) : StandsAt column a.content (spaces column ++ a.content) := by
  have hword := isAsciiWord_of_isIdentifier a.isIdentifier
  obtain ⟨c, cs, heq⟩ := List.exists_cons_of_ne_nil (ne_nil_of_isIdentifier a.isIdentifier)
  have hplain : isPlain (a.name.toList ++ [':', ' ']) = true := by
    rw [isPlain_append, a.isPlain_name]
    decide
  have hfirst : ∀ d ∈ (a.name.toList ++ [':', ' ']).head?, isIndent d = false :=
    forall_mem_of_eq_some (by rw [heq]; rfl) (not_indent_of_isAsciiWord (hword c (by simp [heq])))
  have hstands := standsAt_quoted column hplain hfirst a.value.1.toList
  rwa [List.append_assoc] at hstands

theorem entry : Entry.ofContent? a.content = some ⟨a.name.toList, quoted a.value.1.toList⟩ :=
  ofContent?_quoted (ne_nil_of_isIdentifier a.isIdentifier)
    (isAsciiWord_of_isIdentifier a.isIdentifier) _

end NamedText

/-- An argument is found by its name. -/
theorem ArgumentMap.find?_pair (arguments : ArgumentMap) {a : NamedText}
    (h : a ∈ arguments.entries) :
    (arguments.entries.map fun a => (a.name, a.value.1)).find? (fun pair => pair.1 = a.name) =
      some (a.name, a.value.1) := by
  have hfound : arguments.entries.find? (fun b => b.name = a.name) = some a := by
    obtain ⟨b, hb⟩ : ∃ b, arguments.entries.find? (fun b => b.name = a.name) = some b :=
      Option.isSome_iff_exists.1 (List.find?_isSome.2 ⟨a, h, by simp⟩)
    have hname : b.name = a.name := by simpa using List.find?_some hb
    rw [hb, List.inj_on_of_nodup_map arguments.nodup (List.mem_of_find?_eq_some hb) h hname]
  have hcomp : (fun pair : String × String => decide (pair.1 = a.name)) ∘
      (fun b : NamedText => (b.name, b.value.1)) =
      fun b => decide (b.name = a.name) := rfl
  rw [List.find?_map, hcomp, hfound]
  rfl

namespace OpenCall

variable (call : OpenCall) (offset : Nat) (arguments : ArgumentMap)

/-- What is passed by the lines behind the arguments. -/
def pairsAfter : List (String × String) :=
  (argumentsFrom call.column .outside (call.after.zipIdx 0)).map fun p => (p.name, p.value)

/-- What is passed at the call is what the lines below it pass. -/
theorem pairsAt_eq (lines : List (List Char)) :
    pairsAt (call.before ++ call.header :: lines) call.line =
      (argumentsFrom call.column .outside (lines.zipIdx (call.line + 1))).map fun p =>
        (p.name, p.value) := by
  have hdrop : (call.before ++ call.header :: lines).drop call.line =
      call.header :: lines := List.drop_left
  rw [pairsAt, argumentsAt_of_drop_eq hdrop]
  simp only [call.header_eq]

theorem pairsAt_blockLines :
    pairsAt (call.blockLines offset arguments) call.line =
      arguments.entries.map (fun a => (a.name, a.value.1)) ++ call.pairsAfter := by
  have hkey : Entry.ofContent? "parameters:".toList = some ⟨"parameters".toList, []⟩ := by decide
  have hindent : call.column < call.column + offset + 1 := by omega
  rw [blockLines, pairsAt_eq, List.zipIdx_cons,
    argumentsFrom_opens (standsAt_parameters call.column) (by decide) hkey,
    argumentsFrom_entries_append (fun a : NamedText => a.standsAt _) NamedText.head?_content
      NamedText.entry hindent
      arguments.entries call.after (.inl rfl), argumentsFrom_of_left call.after_left,
      List.map_append,
    pairs_argumentsFrom, List.map_map]
  refine congrArg (· ++ _) ?_
  conv_rhs => rw [← List.zipIdx_map_fst (call.line + 1 + 1) arguments.entries, List.map_map]
  refine List.map_congr_left fun p _ => ?_
  rw [Function.comp_apply, Function.comp_apply, PassedParameter.ofEntry, unquote_quoted,
    String.ofList_toList, String.ofList_toList]

theorem pairsAt_flowLines :
    pairsAt (call.flowLines arguments) call.line =
      (flowEntries (flowMap arguments.entries)).map
        (fun e => (String.ofList e.key, String.ofList e.value)) ++
        call.pairsAfter := by
  have hstands : StandsAt call.column ("parameters: ".toList ++ flowMap arguments.entries)
      (spaces call.column ++ ("parameters: ".toList ++ flowMap arguments.entries)) := by
    refine standsAt_of_isQuiet _
      ((isQuiet_of_isPlain (by decide)).append (isQuiet_flowMap _)) (by simp)
      (forall_mem_of_eq_some (c := 'p') rfl (by decide)) ?_
    rw [List.getLast?_append, getLast?_flowMap, Option.some_or]
    exact forall_mem_of_eq_some rfl (by decide)
  have hentry : Entry.ofContent? ("parameters: ".toList ++ flowMap arguments.entries) =
      some ⟨"parameters".toList, flowMap arguments.entries⟩ :=
    @ofContent?_of_trim "parameters".toList (by decide) (List.all_eq_true.1 (by decide))
      (flowMap arguments.entries) (by simp [flowMap]) (trim_flowMap _)
  have hdash : ("parameters: ".toList ++ flowMap arguments.entries).head? ≠ some '-' := fun heq =>
    absurd (Option.some.inj heq) (show 'p' ≠ '-' by decide)
  rw [flowLines, pairsAt_eq, List.zipIdx_cons, argumentsFrom_flow hstands hdash hentry rfl,
    List.map_append, pairs_argumentsFrom, List.map_map]
  rfl

/-- Both ways of writing the arguments are read alike, if and only if no string holds a comma. -/
theorem find?_flowLines_iff :
    (∀ name, ((passedParameters (call.flowLines arguments) call.line).find? name).map
      (fun p => (p.name, p.value)) =
        ((passedParameters (call.blockLines offset arguments) call.line).find? name).map fun p =>
          (p.name, p.value)) ↔
      ∀ a ∈ arguments.entries, ',' ∉ a.value.1.toList := by
  simp only [find?_passedParameters, call.pairsAt_flowLines, call.pairsAt_blockLines]
  constructor
  · intro h a ha
    -- on lines of its own the argument is found first, and on one line something of its name
    -- without a comma
    have hblock : (arguments.entries.map fun a => (a.name, a.value.1)).find?
        (fun pair => pair.1 = a.name) =
        some (a.name, a.value.1) := arguments.find?_pair ha
    obtain ⟨e, he, hkey⟩ := exists_mem_flowEntries ha
    obtain ⟨pair, hpair⟩ : ∃ pair, ((flowEntries (flowMap arguments.entries)).map fun e =>
        (String.ofList e.key, String.ofList e.value)).find? (fun pair => pair.1 = a.name) =
          some pair := by
      refine Option.isSome_iff_exists.1 (List.find?_isSome.2 ⟨_, List.mem_map_of_mem he, ?_⟩)
      simp [hkey]
    have hsame := h a.name
    rw [List.find?_append, List.find?_append, hblock, hpair, Option.some_or, Option.some_or]
      at hsame
    obtain ⟨other, hother, rfl⟩ := List.mem_map.1 (List.mem_of_find?_eq_some hpair)
    have hvalue : String.ofList other.value = a.value.1 := congrArg Prod.snd (Option.some.inj hsame)
    rw [← hvalue, String.toList_ofList]
    exact comma_notMem_of_mem_flowEntries hother
  · intro h name
    rw [flowEntries_of_notMem h, List.map_map]
    simp only [Function.comp_def, String.ofList_toList]

end OpenCall

end Arguments

/-! ### Both ways of writing -/

/-- Declared values in brackets are read like values on lines of their own, and arguments of a call
in braces like arguments on lines of their own, if and only if no string holds a comma. -/
theorem spellings_agree_iff {column : Nat} (written : List (WrittenParameter column)) (ended : Bool)
    (call : OpenCall) (offset : Nat) (arguments : ArgumentMap) :
    ((parameters (textOf (flowBlockLines written) ended)).map (·.allowed) =
        (parameters (textOf (blockLines written) ended)).map (·.allowed) ↔
      ∀ p ∈ written, ∀ value ∈ p.declared.valueTexts, ',' ∉ value.1.toList) ∧
    ((∀ name, ((passedParameters (call.flowLines arguments) call.line).find? name).map
      (fun p => (p.name, p.value)) =
        ((passedParameters (call.blockLines offset arguments) call.line).find? name).map fun p =>
          (p.name, p.value)) ↔
      ∀ a ∈ arguments.entries, ',' ∉ a.value.1.toList) := by
  refine ⟨?_, call.find?_flowLines_iff offset arguments⟩
  rw [allowed_flowBlockLines, allowed_blockLines, List.map_inj_left]
  exact forall₂_congr fun p _ => p.flowAllowed_eq_iff

/-- A string with a comma is cut in brackets, and keeps one of its quotes in each piece. -/
example :
    (parameters "parameters:\n- name: 'x'\n  values: ['a,b']\n").map (·.allowed) =
      [["'a", "b'"]] := by
  decide +kernel

end TemplateAtlas.Template
