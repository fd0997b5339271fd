import TemplateAtlas.Proofs.Template.Blocks

/-!
# The older form of the block of parameters

In the older form the block `parameters` is a map from names to defaults. A default is a string on
the line of its name, or a sequence of strings, each behind a dash on a line of its own. These lines
are deeper than the name, or they stand in its column:

    parameters:
      inline: 'value'
      deeper:
        - 'value'
      beside:
      - 'value'

Inline defaults and deeper sequences are read back. A line in the column of the names opens an item
of the block, though, whether or not it opens with a dash: an item that only holds a string declares
nothing, and the name before it is left without a default (`reads_map_form`). The proof takes an
entry apart into these items (`MapEntry.items`).
-/

namespace TemplateAtlas.Template

open TemplateAtlas.Text

/-! ### Entries and how they are written -/

/-- A default of the older form. -/
inductive MapDefault where
  /-- A string on the line of the name. -/
  | inline (value : LineText)
  /-- Strings on lines of their own, which are deeper than the name by some columns. -/
  | sequence (offset : Nat) (first : LineText) (others : List LineText)

namespace MapDefault

/-- A string behind a dash. -/
def dashed (value : LineText) : List Char :=
  ['-', ' '] ++ quoted value.1.toList

/-- Do lines of the default stand in the column of the name? -/
def inOwnColumn : MapDefault → Bool
  | inline _ => false
  | sequence offset _ _ => offset = 0

/-- The strings of a sequence. -/
def strings : MapDefault → List LineText
  | inline _ => []
  | sequence _ first others => first :: others

/-- The type that the form of the default stands for. -/
def type : MapDefault → String
  | inline _ => "string"
  | sequence .. => "object"

/-- The default: the string, or the lines of the sequence without their indentation. -/
def text : MapDefault → String
  | inline value => value.1
  | sequence _ first others => String.ofList (joinLines ((first :: others).map dashed))

end MapDefault

/-- A parameter of the older form. -/
structure MapEntry where
  /-- Its name. -/
  name : String
  /-- The name is an identifier. -/
  isIdentifier : isIdentifier name.toList = true
  /-- Its default. -/
  default : MapDefault

namespace MapEntry

/-- What stands on the line of the name. -/
def opening (e : MapEntry) : List Char :=
  match e.default with
  | .inline value => e.name.toList ++ ':' :: ' ' :: quoted value.1.toList
  | .sequence .. => e.name.toList ++ [':']

/-- The lines below it, when the name stands in the column. -/
def body (column : Nat) (e : MapEntry) : List (List Char) :=
  match e.default with
  | .inline _ => []
  | .sequence offset first others =>
    (first :: others).map fun value => spaces (column + offset) ++ MapDefault.dashed value

/-- The lines of the entry. -/
def lines (column : Nat) (e : MapEntry) : List (List Char) :=
  (spaces column ++ e.opening) :: e.body column

/-- The number of its lines. -/
def height (column : Nat) (e : MapEntry) : Nat :=
  (e.lines column).length

/-- The declaration that is meant, on a line. -/
def declaration (e : MapEntry) (line : Nat) : ParameterDeclaration :=
  .declare e.name e.default.type (some e.default.text) line

/-- The declaration that is read: lines in the column of the name are lost. -/
def asRead (e : MapEntry) (line : Nat) : ParameterDeclaration :=
  if e.default.inOwnColumn then .declare e.name "string" (some "") line else e.declaration line

end MapEntry

/-- The lines of the block `parameters` in its older form, with the names in the column. -/
def mapLines (column : Nat) (entries : List MapEntry) : List (List Char) :=
  "parameters:".toList :: entries.flatMap (MapEntry.lines column)

/-! ### The lines of an entry -/

section Lines

variable {column : Nat}

theorem MapDefault.standsAt_dashed (value : LineText) (n : Nat) :
    StandsAt n (dashed value) (spaces n ++ dashed value) :=
  standsAt_quoted n (by decide) (forall_mem_of_eq_some (c := '-') rfl (by decide)) _

theorem MapDefault.isBlockLine_dashed (value : LineText) (n : Nat) :
    IsBlockLine (spaces n ++ dashed value) := by
  refine (standsAt_dashed value n).isBlockLine
    (isOneLine_append.2 ⟨isOneLine_spaces n, ?_⟩) (.inr rfl)
  exact isOneLine_append.2 ⟨by decide, isOneLine_quoted value.2⟩

namespace MapEntry

variable (e : MapEntry)

theorem standsAt_opening (n : Nat) : StandsAt n e.opening (spaces n ++ e.opening) := by
  have hword := isAsciiWord_of_isIdentifier e.isIdentifier
  have hplain := isPlain_of_word hword
  obtain ⟨c, cs, heq⟩ := List.exists_cons_of_ne_nil (ne_nil_of_isIdentifier e.isIdentifier)
  have hfirst : ∀ rest, ∀ d ∈ (e.name.toList ++ rest).head?, isIndent d = false := fun rest =>
    forall_mem_of_eq_some (by rw [heq]; rfl) (not_indent_of_isAsciiWord (hword c (by simp [heq])))
  unfold opening
  cases e.default with
  | inline value =>
    have hkey : isPlain (e.name.toList ++ [':', ' ']) = true := by
      rw [isPlain_append, hplain]; decide
    have hstands := standsAt_quoted n hkey (hfirst _) value.1.toList
    rwa [List.append_assoc] at hstands
  | sequence =>
    exact standsAt_plain n (by rw [isPlain_append, hplain]; decide) (by simp) (hfirst _)
      (forall_mem_of_eq_some List.getLast?_concat (by decide))

theorem isOneLine_opening : IsOneLine e.opening := by
  have hname := isOneLine_of_word (isAsciiWord_of_isIdentifier e.isIdentifier)
  unfold opening
  cases e.default with
  | inline value =>
    have hvalue : IsOneLine (':' :: ' ' :: quoted value.1.toList) :=
      isOneLine_append.2 ⟨show IsOneLine [':', ' '] by decide, isOneLine_quoted value.2⟩
    exact isOneLine_append.2 ⟨hname, hvalue⟩
  | sequence => exact isOneLine_append.2 ⟨hname, by decide⟩

theorem isBlockLine_opening : IsBlockLine (spaces (column + 1) ++ e.opening) :=
  (e.standsAt_opening _).isBlockLine (isOneLine_append.2 ⟨isOneLine_spaces _, e.isOneLine_opening⟩)
    (.inl (Nat.succ_pos column))

theorem not_isDash_opening : isDash e.opening = false := by
  obtain ⟨c, cs, heq⟩ := List.exists_cons_of_ne_nil (ne_nil_of_isIdentifier e.isIdentifier)
  have hdash : c ≠ '-' :=
    ne_of_isAsciiWord (isAsciiWord_of_isIdentifier e.isIdentifier c (by simp [heq])) (by decide)
  have hopens : ∃ cs', e.opening = c :: cs' := by
    unfold opening
    cases e.default with
    | inline value => exact ⟨_, by rw [heq]; rfl⟩
    | sequence => exact ⟨_, by rw [heq]; rfl⟩
  obtain ⟨cs', hopening⟩ := hopens
  rw [hopening, isDash]
  exact fun rest hrest => hdash (List.cons.inj hrest).1

/-- The value on the line of the name. -/
def inlineValue (e : MapEntry) : List Char :=
  match e.default with
  | .inline value => quoted value.1.toList
  | .sequence .. => []

theorem ofContent?_opening : Entry.ofContent? e.opening = some ⟨e.name.toList, e.inlineValue⟩ := by
  have hne := ne_nil_of_isIdentifier e.isIdentifier
  have hword := isAsciiWord_of_isIdentifier e.isIdentifier
  unfold opening inlineValue
  cases e.default with
  | inline value => exact ofContent?_quoted hne hword value.1.toList
  | sequence => exact ofContent?_bare hne hword

theorem isBlockLine_of_mem_body : ∀ line ∈ e.body column, IsBlockLine line := by
  unfold body
  cases e.default with
  | inline => exact List.forall_mem_nil _
  | sequence offset first others =>
    rw [List.forall_mem_map]
    exact fun value _ => MapDefault.isBlockLine_dashed value _

theorem lt_indent_of_mem_body (h : e.default.inOwnColumn = false) :
    ∀ line ∈ e.body column, column < indentOf line := by
  unfold body
  cases hdefault : e.default with
  | inline => exact List.forall_mem_nil _
  | sequence offset first others =>
    rw [hdefault, MapDefault.inOwnColumn, decide_eq_false_iff_not] at h
    rw [List.forall_mem_map]
    intro value _
    rw [(MapDefault.standsAt_dashed value _).indent]
    omega

end MapEntry

end Lines

/-! ### The items of an entry -/

section Items

variable {column : Nat}

/-- The item of a line with a string behind a dash. -/
def MapDefault.dashedItem (column : Nat) (value : LineText) : ItemLines column where
  opening := spaces column ++ dashed value
  body := []
  indent_opening := (standsAt_dashed value column).indent
  lt_indent := List.forall_mem_nil _
  isBlockLine := List.forall_mem_singleton.2 (isBlockLine_dashed value column)

/-- It declares nothing, as the string is no entry. -/
theorem MapDefault.parameterOfItem?_dashedItem (value : LineText) (number : Nat) :
    parameterOfItem? ((dashedItem column value).placedAt number) = none := by
  have hstands := standsAt_dashed value column
  have hdash : isDash (dashed value) = true := rfl
  have hafter : afterDash (dashed value) = (quoted value.1.toList, 2) :=
    afterDash_of_first (by decide) _
  have hitem : (dashedItem column value).placedAt number =
      ⟨number, true, quoted value.1.toList, column + 2, []⟩ := by
    simp only [ItemLines.placedAt, dashedItem, Item.ofLine, BlockLine.content, BlockLine.indent,
      hstands.shown, hstands.indent, hdash, hafter, if_true]
    rfl
  have hfields : Item.fields ⟨number, true, quoted value.1.toList, column + 2, []⟩ = [] := by
    rw [Item.fields]
    simp only [fieldsFrom, ofContent?_quoted_eq_none]
  rw [hitem, parameterOfItem?, hfields]
  rfl

namespace MapEntry

/-- The item that the line of a name opens, with deeper lines below it. -/
def openedItem (column : Nat) (e : MapEntry) (body : List (List Char))
    (h : ∀ line ∈ body, column + 1 < indentOf line ∧ IsBlockLine line) :
    ItemLines (column + 1) where
  opening := spaces (column + 1) ++ e.opening
  body := body
  indent_opening := (e.standsAt_opening (column + 1)).indent
  lt_indent line hline := (h line hline).1
  isBlockLine := List.forall_mem_cons.2 ⟨e.isBlockLine_opening, fun line hline => (h line hline).2⟩

/-- It declares its name, with the lines below it as an object if there is no value on the line. -/
theorem parameterOfItem?_openedItem (e : MapEntry) {body : List (List Char)}
    (h : ∀ line ∈ body, column + 1 < indentOf line ∧ IsBlockLine line) (number : Nat) :
    parameterOfItem? ((e.openedItem column body h).placedAt number) =
      some (if e.inlineValue.isEmpty && !(joinLines (withoutMargin body)).isEmpty then
        .declare e.name "object" (some (String.ofList (joinLines (withoutMargin body)))) number
      else .declare e.name "string" (some (String.ofList (unquote e.inlineValue))) number) := by
  have hstands := e.standsAt_opening (column + 1)
  have hitem : (e.openedItem column body h).placedAt number =
      ⟨number, false, e.opening, column + 1, numbered (number + 1) body⟩ := by
    simp only [ItemLines.placedAt, openedItem, Item.ofLine, BlockLine.content, BlockLine.indent,
      hstands.shown, hstands.indent, e.not_isDash_opening, Bool.false_eq_true, if_false]
  rw [hitem, parameterOfItem?]
  simp only [Bool.false_eq_true, if_false, e.ofContent?_opening, Option.map_some, parameterOfEntry,
    dedent_numbered, String.ofList_toList]

/-- The items that the lines of an entry make. Lines in the column of the name make items of their
own. -/
def items (column : Nat) (e : MapEntry) : List (ItemLines (column + 1)) :=
  if h : e.default.inOwnColumn = false then
    [e.openedItem column (e.body (column + 1)) fun line hline =>
      ⟨e.lt_indent_of_mem_body h line hline, e.isBlockLine_of_mem_body line hline⟩]
  else
    e.openedItem column [] (List.forall_mem_nil _) ::
      e.default.strings.map (MapDefault.dashedItem (column + 1))

variable (e : MapEntry)

theorem body_of_inOwnColumn (h : e.default.inOwnColumn = true) (n : Nat) :
    e.body n = e.default.strings.map fun value => spaces n ++ MapDefault.dashed value := by
  unfold body
  cases hdefault : e.default with
  | inline =>
    rw [hdefault] at h
    cases h
  | sequence offset first others =>
    rw [hdefault, MapDefault.inOwnColumn, decide_eq_true_eq] at h
    rw [h]
    rfl

theorem flatMap_lines_items : (e.items column).flatMap ItemLines.lines = e.lines (column + 1) := by
  unfold items
  split
  · exact List.append_nil _
  next h =>
    have hdashed : (fun value => (MapDefault.dashedItem (column + 1) value).lines) =
        fun value => [spaces (column + 1) ++ MapDefault.dashed value] := rfl
    rw [List.flatMap_cons, List.flatMap_map, hdashed, ← List.map_eq_flatMap, lines,
      e.body_of_inOwnColumn (by simpa using h)]
    rfl

/-- What is read of the line of a name with deeper lines below it is what is meant. -/
theorem parameterOfItem?_of_deeper
    (hbody : ∀ line ∈ e.body (column + 1), column + 1 < indentOf line ∧ IsBlockLine line)
    (number : Nat) :
    parameterOfItem? ((e.openedItem column (e.body (column + 1)) hbody).placedAt number) =
      some (e.declaration number) := by
  rw [e.parameterOfItem?_openedItem, declaration]
  unfold inlineValue body
  cases hdefault : e.default with
  | inline value =>
    have hvalue : (quoted value.1.toList).isEmpty = false := rfl
    simp only [hvalue, Bool.false_and, Bool.false_eq_true, if_false, unquote_quoted,
      String.ofList_toList]
    rfl
  | sequence offset first others =>
    have hindent : ∀ value, indentOf (spaces (column + 1 + offset) ++ MapDefault.dashed value) =
        column + 1 + offset :=
      fun value => (MapDefault.standsAt_dashed value _).indent
    have hjoined : (joinLines ((first :: others).map MapDefault.dashed)).isEmpty = false := by
      cases others <;> rfl
    simp only [withoutMargin_map_spaces hindent, hjoined, List.isEmpty_nil, Bool.not_false,
      Bool.and_self, if_true]
    rfl

/-- A name without a value and without deeper lines below it is left with an empty string. -/
theorem parameterOfItem?_of_beside (h : e.default.inOwnColumn = true) (number : Nat) :
    parameterOfItem? ((e.openedItem column [] (List.forall_mem_nil _)).placedAt number) =
      some (.declare e.name "string" (some "") number) := by
  rw [e.parameterOfItem?_openedItem]
  unfold inlineValue
  cases hdefault : e.default with
  | inline =>
    rw [hdefault] at h
    cases h
  | sequence => rfl

/-- The items of an entry declare what is read. -/
theorem filterMap_items (first : Nat) :
    ((placed ItemLines.height first (e.items column)).filterMap fun p =>
      parameterOfItem? (p.2.placedAt p.1)) =
      [e.asRead first] := by
  rw [items, asRead]
  by_cases h : e.default.inOwnColumn = false
  · rw [dif_pos h, placed, placed, List.filterMap_cons, e.parameterOfItem?_of_deeper,
      List.filterMap_nil, h]
    rfl
  · have hbeside : e.default.inOwnColumn = true := by simpa using h
    have hnone : ((placed ItemLines.height (first + 1)
        (e.default.strings.map (MapDefault.dashedItem (column + 1)))).filterMap
          fun p => parameterOfItem? (p.2.placedAt p.1)) = [] := by
      rw [placed_map, List.filterMap_map, List.filterMap_eq_nil_iff]
      exact fun p _ => MapDefault.parameterOfItem?_dashedItem p.2 p.1
    have hheight : (e.openedItem column [] (List.forall_mem_nil _)).height = 1 := rfl
    rw [dif_neg h, placed, List.filterMap_cons, e.parameterOfItem?_of_beside hbeside, hheight,
      hnone, if_pos hbeside]

/-- What is read is what is meant, unless the lines of a sequence stand in the column of the
name. -/
theorem asRead_eq_iff (number : Nat) :
    e.asRead number = e.declaration number ↔ e.default.inOwnColumn = false := by
  unfold asRead declaration
  cases hdefault : e.default with
  | inline => exact ⟨fun _ => rfl, fun _ => rfl⟩
  | sequence offset first others =>
    cases h : (MapDefault.sequence offset first others).inOwnColumn with
    | false => exact ⟨fun _ => rfl, fun _ => rfl⟩
    | true =>
      refine ⟨fun heq => ?_, fun hfalse => by cases hfalse⟩
      have htype : "string" = "object" := congrArg ParameterDeclaration.type heq
      exact absurd htype (by decide)

end MapEntry

end Items

/-! ### The whole block -/

/-- In every column but the first, the block reads as one declaration for each entry, in order and
on the line of its name. It is the declaration that is meant for inline defaults and for deeper
sequences; a sequence in the column of the names is lost, and its parameter becomes a string without
characters. -/
theorem reads_map_form (column : Nat) (entries : List MapEntry) (ended : Bool) :
    parameters (textOf (mapLines (column + 1) entries) ended) =
        ((placed (MapEntry.height (column + 1)) 1 entries).map fun q => q.2.asRead q.1) ∧
      (parameters (textOf (mapLines (column + 1) entries) ended) =
          ((placed (MapEntry.height (column + 1)) 1 entries).map fun q => q.2.declaration q.1) ↔
        ∀ e ∈ entries, e.default.inOwnColumn = false) := by
  have hlines : mapLines (column + 1) entries =
      "parameters:".toList ::
        (entries.flatMap (MapEntry.items column)).flatMap ItemLines.lines := by
    rw [mapLines, List.flatMap_assoc]
    simp only [MapEntry.flatMap_lines_items]
  have hheight : (fun e : MapEntry => ((e.items column).map ItemLines.height).sum) =
      MapEntry.height (column + 1) := by
    funext e
    rw [MapEntry.height, ← e.flatMap_lines_items, List.length_flatMap]
    rfl
  have hread : parameters (textOf (mapLines (column + 1) entries) ended) =
      (placed (MapEntry.height (column + 1)) 1 entries).map fun q => q.2.asRead q.1 := by
    rw [hlines, ItemLines.parameters_eq, placed_flatMap, List.filterMap_flatMap, hheight,
      List.map_eq_flatMap]
    exact List.flatMap_congr fun q _ => q.2.filterMap_items q.1
  refine ⟨hread, ?_⟩
  rw [hread, List.map_inj_left]
  simp only [MapEntry.asRead_eq_iff]
  conv_rhs => rw [← map_snd_placed (MapEntry.height (column + 1)) 1 entries]
  rw [List.forall_mem_map]

/-- The strings of a sequence beside its name are lost. -/
example :
    parameters "parameters:\n  tags:\n  - 'a'\n  - 'b'\n" =
      [.declare "tags" "string" (some "") 1] := by
  decide +kernel

end TemplateAtlas.Template
