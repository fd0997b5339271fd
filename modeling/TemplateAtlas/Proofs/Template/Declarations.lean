import TemplateAtlas.Proofs.Template.Items

/-!
# Declarations that are written and read

A parameter is written as an item of the block `parameters`: its keys stand in any order, with all
strings in single quotes, values as lines that open with a dash, and a default on one line or as
nested lines:

    parameters:
    - name: 'name'
      type: 'string'
      values:
      - 'value'
      default:
        nested: lines

Whatever the strings hold, reading gives back one declaration for each item
(`reads_back_declarations`). The proof follows the reader: the lines of the block make the items,
the lines of an item make one field for each key, and the fields, found by their keys and thus in
any order, make the declaration.
-/

namespace TemplateAtlas.Template

open TemplateAtlas.Text

/-! ### Keys and how they are written -/

/-- The keys of an item that declares a parameter. -/
inductive ParameterKey where
  | name
  | type
  | default
  | displayName
  | values
  deriving DecidableEq

namespace ParameterKey

/-- The key as it is written. -/
def text : ParameterKey → List Char
  | name => "name".toList
  | type => "type".toList
  | default => "default".toList
  | displayName => "displayName".toList
  | values => "values".toList

theorem text_ne_nil (key : ParameterKey) : key.text ≠ [] := by
  cases key <;> decide

theorem isAsciiWord_of_mem_text (key : ParameterKey) : ∀ c ∈ key.text, isAsciiWord c = true := by
  refine List.all_eq_true.1 ?_
  cases key <;> decide

theorem text_inj {key other : ParameterKey} : key.text = other.text ↔ key = other := by
  cases key <;> cases other <;> decide

/-- All keys. -/
def all : List ParameterKey :=
  [name, type, default, displayName, values]

theorem mem_all (key : ParameterKey) : key ∈ all := by
  cases key <;> decide

end ParameterKey

/-- A key of an item in a column, with what is written for it. -/
structure Part (column : Nat) where
  /-- The key. -/
  key : ParameterKey
  /-- The value on the line of the key. -/
  value? : Option LineText
  /-- The lines under the key. -/
  nested : List (List Char)
  /-- The lines belong to the key. -/
  under : ∀ line ∈ nested, IsNested column line

namespace Part

variable {column : Nat}

/-- The value as it is written. -/
def value (part : Part column) : List Char :=
  (part.value?.map fun value => quoted value.1.toList).getD []

/-- What stands on the line of the key. -/
def content (part : Part column) : List Char :=
  match part.value? with
  | some value => part.key.text ++ ':' :: ' ' :: quoted value.1.toList
  | none => part.key.text ++ [':']

/-- The lines of a key, with the key in the column `column + 2`. -/
def lines (part : Part column) : List (List Char) :=
  (spaces (column + 2) ++ part.content) :: part.nested

/-- The field that the lines make. -/
def field (part : Part column) : Field :=
  ⟨part.key.text, part.value, withoutMargin part.nested⟩

theorem exists_content_eq (part : Part column) :
    ∃ c cs, part.content = c :: cs ∧ isAsciiWord c = true := by
  obtain ⟨c, cs, heq⟩ := List.exists_cons_of_ne_nil part.key.text_ne_nil
  have hc : isAsciiWord c = true := part.key.isAsciiWord_of_mem_text c (by simp [heq])
  unfold content
  cases part.value? with
  | some value => exact ⟨c, cs ++ ':' :: ' ' :: quoted value.1.toList, by simp [heq], hc⟩
  | none => exact ⟨c, cs ++ [':'], by simp [heq], hc⟩

theorem entry (part : Part column) :
    Entry.ofContent? part.content = some ⟨part.key.text, part.value⟩ := by
  unfold content value
  cases part.value? with
  | some value =>
    exact ofContent?_quoted part.key.text_ne_nil part.key.isAsciiWord_of_mem_text value.1.toList
  | none => exact ofContent?_bare part.key.text_ne_nil part.key.isAsciiWord_of_mem_text

theorem isOneLine_content (part : Part column) : IsOneLine part.content := by
  unfold content
  have hkey := isOneLine_of_word part.key.isAsciiWord_of_mem_text
  cases part.value? with
  | some value =>
    have hvalue : IsOneLine (':' :: ' ' :: quoted value.1.toList) :=
      isOneLine_append.2 ⟨show IsOneLine [':', ' '] by decide, isOneLine_quoted value.2⟩
    exact isOneLine_append.2 ⟨hkey, hvalue⟩
  | none => exact isOneLine_append.2 ⟨hkey, by decide⟩

theorem isQuiet_content (part : Part column) : IsQuiet part.content := by
  have hkey := isQuiet_of_isPlain (isPlain_of_word part.key.isAsciiWord_of_mem_text)
  unfold content
  cases part.value? with
  | some value => exact hkey.append (isQuiet_colon.append (isQuiet_quoted _))
  | none => exact hkey.append (isQuiet_of_isPlain (by decide))

theorem not_blank_of_mem_getLast? (part : Part column) :
    ∀ c ∈ part.content.getLast?, isBlank c = false := by
  unfold content
  cases part.value? with
  | some value =>
    have hlast := getLast?_append_quoted (part.key.text ++ [':', ' ']) value.1.toList
    rw [List.append_assoc] at hlast
    exact forall_mem_of_eq_some hlast (by decide)
  | none => exact forall_mem_of_eq_some List.getLast?_concat (by decide)

/-- The key as it is read. -/
def keyLines (part : Part column) : KeyLines column where
  content := part.content
  entry := ⟨part.key.text, part.value⟩
  nested := part.nested
  opens := part.exists_content_eq
  closes := part.not_blank_of_mem_getLast?
  quiet := part.isQuiet_content
  oneLine := part.isOneLine_content
  states := part.entry
  under := part.under

end Part

/-! ### Items and how they are written -/

/-- An item: its keys in the order in which they are written. -/
structure WrittenItem (column : Nat) where
  /-- The key behind the dash. -/
  first : Part column
  /-- The keys on the lines below. -/
  others : List (Part column)

namespace WrittenItem

variable {column : Nat}

/-- All keys of the item. -/
def parts (item : WrittenItem column) : List (Part column) :=
  item.first :: item.others

/-- The lines below the one with the dash. -/
def body (item : WrittenItem column) : List (List Char) :=
  item.first.nested ++ item.others.flatMap Part.lines

/-- The lines of the item, with the dash in the column. -/
def lines (item : WrittenItem column) : List (List Char) :=
  (spaces column ++ (['-', ' '] ++ item.first.content)) :: item.body

/-- The number of its lines. -/
def height (item : WrittenItem column) : Nat :=
  item.lines.length

/-- The item as it is read. -/
def keyItem (item : WrittenItem column) : KeyItem column :=
  ⟨item.first.keyLines, item.others.map Part.keyLines⟩

theorem lines_keyItem (item : WrittenItem column) : item.keyItem.lines = item.lines := by
  rw [KeyItem.lines, KeyItem.body, keyItem, List.flatMap_map]
  rfl

theorem height_keyItem (item : WrittenItem column) : item.keyItem.height = item.height := by
  rw [KeyItem.height, lines_keyItem, height]

theorem fields_keyItem (item : WrittenItem column) :
    item.keyItem.fields = item.parts.map Part.field := by
  have hkeys : item.keyItem.first :: item.keyItem.others = item.parts.map Part.keyLines := rfl
  rw [KeyItem.fields, hkeys, List.map_map]
  rfl

end WrittenItem

/-! ### Parameters and their keys -/

/-- A line of a nested default: not blank, without `#`, quotes and blanks at its end, and deeper
than the keys. -/
structure IsBlockText (column : Nat) (line : List Char) : Prop where
  /-- The line is indented by four columns more than the dash, at least. -/
  indent : column + 4 ≤ indentOf line
  /-- It holds neither `#` nor quotes. -/
  plain : isPlain line = true
  /-- Its last character is no blank. -/
  last : ∃ c ∈ line.getLast?, isBlank c = false
  /-- It has no line breaks. -/
  oneLine : IsOneLine line

/-- A default that can be written. -/
inductive WrittenDefault (column : Nat) where
  /-- A string on the line of the key. -/
  | inline (value : LineText)
  /-- Lines under the key. -/
  | nested (lines : List { line : List Char // IsBlockText column line })

/-- A value that a parameter is restricted to, as it is written. -/
structure WrittenValue where
  /-- Does its dash stand deeper than the key? -/
  deeper : Bool
  /-- The value. -/
  value : LineText
  /-- The value is not empty. -/
  value_ne : value.1 ≠ ""

/-- What is to be declared of a parameter. -/
structure Declared (column : Nat) where
  /-- The name. -/
  name : LineText
  /-- The type. -/
  type? : Option LineText
  /-- The default. -/
  default? : Option (WrittenDefault column)
  /-- The name to show. -/
  displayName? : Option LineText
  /-- The values it is restricted to. -/
  values? : Option (List WrittenValue)
  /-- There is a name. -/
  name_ne : name.1 ≠ ""
  /-- A type that is written is not empty. -/
  type_ne : ∀ type ∈ type?, type.1 ≠ ""

section Parameters

variable {column : Nat}

/-- A key with a value on its line. -/
def Part.inline (key : ParameterKey) (value : LineText) : Part column :=
  ⟨key, some value, [], by simp⟩

theorem IsBlockText.isNested {line : List Char} (h : IsBlockText column line) :
    IsNested column line := by
  obtain ⟨c, hc, hblank⟩ := h.last
  have htext : stripComment line = line := by
    refine stripComment_of_notMem (notMem_of_isPlain h.plain) fun d hd => ?_
    rw [Option.mem_def] at hc hd
    rwa [← Option.some.inj (hc.symm.trans hd)]
  refine ⟨htext, ?_, h.oneLine, .inl (by have := h.indent; omega)⟩
  refine Bool.eq_false_iff.2 fun hnone => ?_
  rw [isIgnorable_iff, htext] at hnone
  rw [hnone] at hc
  cases hc

/-- The key `default`. -/
def WrittenDefault.part : WrittenDefault column → Part column
  | .inline value => .inline .default value
  | .nested lines =>
    { key := .default
      value? := none
      nested := lines.map (·.1)
      under := by
        simp only [List.forall_mem_map]
        exact fun line _ => line.2.isNested }

theorem WrittenDefault.key_part (default : WrittenDefault column) :
    default.part.key = .default := by
  cases default <;> rfl

/-- The text of the default: the string, or the lines without the indentation that they share. -/
def WrittenDefault.text : WrittenDefault column → String
  | .inline value => value.1
  | .nested lines => String.ofList (joinLines (withoutMargin (lines.map (·.1))))

namespace WrittenValue

/-- The value behind its dash. -/
def content (value : WrittenValue) : List Char :=
  ['-', ' '] ++ quoted value.value.1.toList

/-- The column of its dash, when the item stands in the column `n`. -/
def dashColumn (value : WrittenValue) (n : Nat) : Nat :=
  if value.deeper then n + 4 else n + 2

/-- The line of the value, when the item stands in the column `n`. -/
def line (n : Nat) (value : WrittenValue) : List Char :=
  spaces (value.dashColumn n) ++ value.content

theorem standsAt (value : WrittenValue) (n : Nat) :
    StandsAt (value.dashColumn n) value.content (value.line n) :=
  standsAt_quoted _ (by decide) (forall_mem_of_eq_some (c := '-') rfl (by decide)) _

theorem isNested (value : WrittenValue) : IsNested column (value.line column) := by
  have hstands := value.standsAt column
  refine ⟨hstands.text, hstands.isIgnorable_eq, ?_, ?_⟩
  · exact isOneLine_append.2 ⟨isOneLine_spaces _,
      isOneLine_append.2 ⟨by decide, isOneLine_quoted value.value.2⟩⟩
  · rw [hstands.indent, hstands.shown, dashColumn]
    cases value.deeper
    · exact .inr ⟨rfl, rfl⟩
    · exact .inl (by simp)

end WrittenValue

/-- The key `values`. -/
def Part.values (values : List WrittenValue) : Part column where
  key := .values
  value? := none
  nested := values.map (WrittenValue.line column)
  under := List.forall_mem_map.2 fun value _ => value.isNested

namespace Declared

/-- What is written for a key, if it is present. -/
def part? (d : Declared column) : ParameterKey → Option (Part column)
  | .name => some (.inline .name d.name)
  | .type => d.type?.map (.inline .type)
  | .default => d.default?.map WrittenDefault.part
  | .displayName => d.displayName?.map (.inline .displayName)
  | .values => d.values?.map .values

/-- What is written for the keys that are present. -/
def parts (d : Declared column) : List (Part column) :=
  ParameterKey.all.filterMap d.part?

/-- The declaration that is meant, on a line. -/
def declaration (d : Declared column) (line : Nat) : ParameterDeclaration where
  name := d.name.1
  type := (d.type?.map (·.1)).getD "string"
  default? := d.default?.map WrittenDefault.text
  required := d.default?.isNone
  line := line
  displayName? := d.displayName?.map (·.1)
  allowed := (d.values?.map fun values => values.map (·.value.1)).getD []

theorem key_of_part? (d : Declared column) {key : ParameterKey} {part : Part column}
    (h : d.part? key = some part) : part.key = key := by
  cases key with
  | name =>
    obtain rfl := Option.some.inj h
    rfl
  | type | displayName | values =>
    obtain ⟨_, -, rfl⟩ := Option.map_eq_some_iff.1 h
    rfl
  | default =>
    obtain ⟨default, -, rfl⟩ := Option.map_eq_some_iff.1 h
    exact default.key_part

/-- Of each key only one part is present. -/
theorem mem_parts_iff (d : Declared column) {part : Part column} :
    part ∈ d.parts ↔ d.part? part.key = some part := by
  rw [parts, List.mem_filterMap]
  constructor
  · rintro ⟨key, -, h⟩
    rwa [d.key_of_part? h]
  · exact fun h => ⟨part.key, part.key.mem_all, h⟩

/-- The part that is found for a key is the one that is present, in whatever order the parts are
written. -/
theorem find?_of_perm (d : Declared column) {written : List (Part column)}
    (h : written.Perm d.parts) (key : ParameterKey) :
    written.find? (·.key = key) = d.part? key := by
  have hfound : ∀ {part}, written.find? (·.key = key) = some part → d.part? key = some part := by
    intro part hpart
    have hkey : part.key = key := by simpa using List.find?_some hpart
    rw [← hkey]
    exact d.mem_parts_iff.1 (h.mem_iff.1 (List.mem_of_find?_eq_some hpart))
  refine Option.ext fun part => ⟨hfound, fun hpart => ?_⟩
  have hkey := d.key_of_part? hpart
  have hmem : part ∈ written := h.mem_iff.2 (d.mem_parts_iff.2 (by rwa [hkey]))
  obtain ⟨other, hother⟩ : ∃ other, written.find? (·.key = key) = some other :=
    Option.isSome_iff_exists.1 (List.find?_isSome.2 ⟨part, hmem, by simpa using hkey⟩)
  rw [hother, ← hfound hother, hpart]

end Declared

/-- A parameter with the order in which its keys are written. -/
structure WrittenParameter (column : Nat) where
  /-- What is to be declared. -/
  declared : Declared column
  /-- The item. -/
  item : WrittenItem column
  /-- The keys of the item are those that are present, each once. -/
  order : item.parts.Perm declared.parts

namespace WrittenParameter

/-- The fields of the item. -/
def fields (p : WrittenParameter column) : List Field :=
  p.item.parts.map Part.field

variable (p : WrittenParameter column) {field : Part column → Field}
  (hkey : ∀ part, (field part).key = part.key.text)
include hkey

/-- The field that is found for a key is the one of what is written for it, whatever the fields
hold. -/
theorem field?_map (key : ParameterKey) :
    field? key.text (p.item.parts.map field) = (p.declared.part? key).map field := by
  have hsame : ((fun f : Field => decide (f.key = key.text)) ∘ field) =
      fun part : Part column => decide (part.key = key) := by
    funext part
    rw [Function.comp_apply, hkey]
    exact decide_eq_decide.2 ParameterKey.text_inj
  rw [← p.declared.find?_of_perm p.order, field?, List.find?_map, hsame]

/-- A string on the line of its key is read back. -/
theorem fieldValue?_map (key : ParameterKey)
    (hfield : ∀ value, field (.inline key value) = Part.field (.inline key value : Part column))
    (value? : Option LineText) (h : p.declared.part? key = value?.map (.inline key)) :
    fieldValue? key.text (p.item.parts.map field) = value?.map (·.1.toList) := by
  rw [fieldValue?, p.field?_map hkey, h, Option.map_map, Option.map_map]
  refine Option.map_congr fun value _ => ?_
  rw [Function.comp_apply, Function.comp_apply, hfield]
  exact unquote_quoted value.1.toList

end WrittenParameter

/-! ### What the fields declare -/

/-- The value is read of its line, however much of the indentation is gone. -/
theorem WrittenValue.unquote_line (value : WrittenValue) {m : Nat}
    (h : m ≤ value.dashColumn column) :
    (dropPrefix? ['-'] (trimStart ((value.line column).drop m))).map unquote =
      some value.value.1.toList := by
  have hdrop : (value.line column).drop m = spaces (value.dashColumn column - m) ++
      value.content := by
    rw [line, spaces, List.drop_append_of_le_length (by rwa [List.length_replicate]),
      List.drop_replicate]
    rfl
  have htrim : trimStart (spaces (value.dashColumn column - m) ++ value.content) = value.content :=
    trimStart_spaces_append _ (forall_mem_of_eq_some (c := '-') rfl (by decide))
  have hdash : dropPrefix? ['-'] value.content = some (' ' :: quoted value.value.1.toList) := rfl
  rw [hdrop, htrim, hdash, Option.map_some, unquote_cons_space, unquote_quoted]

/-- The values that are read are those that are written. -/
theorem Part.valueList_values (values : List WrittenValue) :
    (Part.values values : Part column).field.valueList = values.map (·.value.1.toList) := by
  have hvalue : (Part.values values : Part column).field.value = [] := rfl
  have hnested : (Part.values values : Part column).field.nested =
      withoutMargin (values.map (WrittenValue.line column)) := rfl
  have hmargin : ∀ value ∈ values,
      ((values.map (WrittenValue.line column)).map indentOf).min?.getD 0 ≤
        value.dashColumn column := by
    intro value hmem
    rw [← (value.standsAt column).indent]
    exact List.min?_getD_le_of_mem (List.mem_map_of_mem (List.mem_map_of_mem hmem))
  rw [Field.valueList, hvalue, hnested, withoutMargin, List.map_map, List.filterMap_map]
  simp only [List.head?_nil, reduceCtorEq, if_false]
  rw [List.filterMap_congr fun value hmem => value.unquote_line (hmargin value hmem),
    List.filterMap_eq_map', List.filter_eq_self]
  simp only [List.forall_mem_map]
  exact fun value _ => by simpa using value.value_ne

/-- The text of the default that is read is the one that is written. -/
theorem WrittenDefault.defaultText_part (default : WrittenDefault column) :
    String.ofList default.part.field.defaultText = default.text := by
  cases default with
  | inline value =>
    have hempty : (quoted value.1.toList).isEmpty = false := rfl
    have hvalue : (Part.inline .default value : Part column).field.value =
        quoted value.1.toList := rfl
    rw [part, Field.defaultText, hvalue, hempty, text]
    simp [unquote_quoted]
  | nested lines => rfl

/-- The fields of the keys, in whatever order, declare the parameter. Its values are those that are
read of their field, and all others are read back. -/
theorem WrittenParameter.parameterOfFields?_map (p : WrittenParameter column)
    (field : Part column → Field) (hkey : ∀ part, (field part).key = part.key.text)
    (hfield : ∀ part, part.key ≠ .values → field part = part.field) (line : Nat) :
    parameterOfFields? (p.item.parts.map field) line = some { p.declared.declaration line with
      allowed :=
        ((p.declared.values?.map fun values => (field (.values values)).valueList).getD []).map
          String.ofList } := by
  have hname : fieldValue? "name".toList (p.item.parts.map field) = some p.declared.name.1.toList :=
    p.fieldValue?_map hkey .name (fun _ => hfield _ (by simp [Part.inline]))
      (some p.declared.name) rfl
  have htype : fieldValue? "type".toList (p.item.parts.map field) =
      p.declared.type?.map (·.1.toList) :=
    p.fieldValue?_map hkey .type (fun _ => hfield _ (by simp [Part.inline])) p.declared.type? rfl
  have hdisplay : fieldValue? "displayName".toList (p.item.parts.map field) =
      p.declared.displayName?.map (·.1.toList) :=
    p.fieldValue?_map hkey .displayName
      (fun _ => hfield _ (by simp [Part.inline])) p.declared.displayName? rfl
  have hdefault : (field? "default".toList (p.item.parts.map field)).map
      (String.ofList ·.defaultText) =
      p.declared.default?.map WrittenDefault.text := by
    have hfound : field? "default".toList (p.item.parts.map field) = _ := p.field?_map hkey .default
    rw [hfound, Declared.part?, Option.map_map, Option.map_map]
    refine Option.map_congr fun default _ => ?_
    rw [Function.comp_apply, Function.comp_apply, hfield _ (by rw [default.key_part]; decide)]
    exact default.defaultText_part
  have hvalues : (field? "values".toList (p.item.parts.map field)).map Field.valueList =
      p.declared.values?.map fun values => (field (.values values)).valueList := by
    have hfound : field? "values".toList (p.item.parts.map field) = _ := p.field?_map hkey .values
    rw [hfound, Declared.part?, Option.map_map, Option.map_map]
    rfl
  have hne : p.declared.name.1.toList.isEmpty = false := by
    simpa using p.declared.name_ne
  rw [parameterOfFields?, hname]
  simp only [hne, htype, hdisplay, hdefault, hvalues, Bool.false_eq_true, if_false,
    Option.some.injEq, ParameterDeclaration.declare, Declared.declaration,
    ParameterDeclaration.mk.injEq]
  refine ⟨String.ofList_toList, ?_, trivial, ?_, trivial, ?_, trivial⟩
  · cases htype? : p.declared.type? with
    | none => simp
    | some type =>
      have hne : type.1.toList.isEmpty = false := by
        simpa using p.declared.type_ne type htype?
      rw [Option.map_some, Option.filter_some, hne]
      exact String.ofList_toList
  · simp
  · simp [Function.comp_def]

/-- Values on lines of their own are read back as well. -/
theorem WrittenParameter.parameterOfFields?_eq (p : WrittenParameter column) (line : Nat) :
    parameterOfFields? p.fields line = some (p.declared.declaration line) := by
  rw [fields, p.parameterOfFields?_map Part.field (fun _ => rfl) (fun _ _ => rfl)]
  simp only [Part.valueList_values, Declared.declaration, Option.some.injEq,
    ParameterDeclaration.mk.injEq, true_and]
  cases p.declared.values? with
  | none => rfl
  | some values => simp [Function.comp_def]

end Parameters

/-! ### The whole block -/

section Blocks

variable {column : Nat}

/-- The lines of the block that declares parameters. -/
def blockLines (parameters : List (WrittenParameter column)) : List (List Char) :=
  "parameters:".toList :: parameters.flatMap (·.item.lines)

/-- The fields of the item that is read declare the parameter. -/
theorem WrittenParameter.parameterOfFields?_keyItem (p : WrittenParameter column) (line : Nat) :
    parameterOfFields? p.item.keyItem.fields line = some (p.declared.declaration line) := by
  rw [p.item.fields_keyItem]
  exact p.parameterOfFields?_eq line

/-- For every column and all parameters, whatever their strings hold and in whatever order their
keys are written, the text of the block reads as one declaration for each parameter, on the line of
its first key. -/
theorem reads_back_declarations (written : List (WrittenParameter column)) (ended : Bool) :
    parameters (textOf (blockLines written) ended) =
      (placed (fun p => p.item.height) 1 written).map fun q => q.2.declared.declaration q.1 := by
  have hread := parameters_keyItems (fun p : WrittenParameter column => p.item.keyItem)
    WrittenParameter.parameterOfFields?_keyItem written ended
  simp only [WrittenItem.lines_keyItem, WrittenItem.height_keyItem] at hread
  exact hread

end Blocks

end TemplateAtlas.Template
