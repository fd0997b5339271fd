import TemplateAtlas.Proofs.Template.Blocks

/-!
# Items that are written

An item that declares a parameter opens with a dash, and its keys stand two columns further. For a
key there is one line that states it, and there may be lines under it (`KeyLines`). The lines of an
item make one field for each key (`KeyItem.fields_placedAt`), so a block of such items declares what
their fields declare (`parameters_keyItems`).
-/

namespace TemplateAtlas.Template

open TemplateAtlas.Text

/-! ### Lines under a key -/

/-- A line that belongs to a key in the column `column + 2` and states none itself. -/
structure IsNested (column : Nat) (line : List Char) : Prop where
  /-- The line has neither a comment nor blanks at its end. -/
  text : stripComment line = line
  /-- It carries something. -/
  carries : isIgnorable line = false
  /-- It has no line breaks. -/
  oneLine : IsOneLine line
  /-- It is deeper than the key, or stands in its column and opens an item. -/
  under : column + 2 < indentOf line ∨ indentOf line = column + 2 ∧
    isDash (line.dropWhile isIndent) = true

/-- Nothing has to stand under a key. -/
theorem isNested_of_mem_nil (column : Nat) :
    ∀ line ∈ ([] : List (List Char)), IsNested column line :=
  List.forall_mem_nil _

section Fields

variable {column : Nat}

/-- Lines that state no key belong to what stands before them. -/
theorem fieldsFrom_append {nested : List BlockLine} (h : ∀ l ∈ nested, l.keyEntry? column = none)
    (rest : List BlockLine) :
    fieldsFrom column (nested ++ rest) =
      (nested ++ (fieldsFrom column rest).1, (fieldsFrom column rest).2) := by
  induction nested with
  | nil => rfl
  | cons l nested ih =>
    rw [List.cons_append, fieldsFrom, ih fun other hother =>
      h other (by simp [hother]), h l (by simp)]
    rfl

theorem IsNested.keyEntry?_eq {line : List Char} (h : IsNested column line) (number : Nat) :
    BlockLine.keyEntry? (column + 2) ⟨number, line⟩ = none := by
  rw [BlockLine.keyEntry?, if_neg]
  intro hkey
  rw [Bool.and_eq_true] at hkey
  have hindent : indentOf line ≤ column + 2 := of_decide_eq_true hkey.1
  rcases h.under with hdeeper | ⟨-, hdash⟩
  · omega
  · have hno : isDash (line.dropWhile isIndent) = false := (Bool.not_eq_true' _).mp hkey.2
    rw [hdash] at hno
    cases hno

theorem keyEntry?_of_mem_numbered {first : Nat} {lines : List (List Char)}
    (h : ∀ line ∈ lines, IsNested column line) :
    ∀ l ∈ numbered first lines, l.keyEntry? (column + 2) = none :=
  fun l hl => (h l.text (text_mem_of_mem_numbered hl)).keyEntry?_eq l.number

end Fields

/-! ### Keys and their lines -/

/-- A key of an item whose dash stands in the column, with the lines that are written for it. -/
structure KeyLines (column : Nat) where
  /-- What stands on the line of the key. -/
  content : List Char
  /-- The entry that it states. -/
  entry : Entry
  /-- The lines under the key. -/
  nested : List (List Char)
  /-- The key opens with a letter, a digit or an underscore. -/
  opens : ∃ c cs, content = c :: cs ∧ isAsciiWord c = true
  /-- No blank stands at the end. -/
  closes : ∀ c ∈ content.getLast?, isBlank c = false
  /-- There is no comment, and all quotes are closed. -/
  quiet : IsQuiet content
  /-- There are no line breaks. -/
  oneLine : IsOneLine content
  /-- The content is read as the entry. -/
  states : Entry.ofContent? content = some entry
  /-- The lines belong to the key. -/
  under : ∀ line ∈ nested, IsNested column line

namespace KeyLines

variable {column : Nat} (key : KeyLines column)

/-- The lines of a key, with the key in the column `column + 2`. -/
def lines : List (List Char) :=
  (spaces (column + 2) ++ key.content) :: key.nested

/-- The field that the lines make. -/
def field : Field :=
  ⟨key.entry.key, key.entry.value, withoutMargin key.nested⟩

theorem not_isDash_content : isDash key.content = false := by
  obtain ⟨c, cs, heq, hc⟩ := key.opens
  have hdash : c ≠ '-' := ne_of_isAsciiWord hc (by decide)
  rw [heq, isDash]
  exact fun rest hrest => hdash (List.cons.inj hrest).1

theorem content_ne_nil : key.content ≠ [] := by
  obtain ⟨c, cs, heq, -⟩ := key.opens
  simp [heq]

/-- What is written for a key stands where it is written. -/
theorem standsAt (n : Nat) : StandsAt n key.content (spaces n ++ key.content) := by
  obtain ⟨c, cs, heq, hc⟩ := key.opens
  exact standsAt_of_isQuiet n key.quiet key.content_ne_nil
    (forall_mem_of_eq_some (by rw [heq]; rfl) (not_indent_of_isAsciiWord hc)) key.closes

/-- It stands behind a dash as well. -/
theorem standsAt_dash (n : Nat) :
    StandsAt n (['-', ' '] ++ key.content) (spaces n ++ (['-', ' '] ++ key.content)) := by
  refine standsAt_of_isQuiet n ((isQuiet_of_isPlain (by decide)).append key.quiet) (by simp)
    (forall_mem_of_eq_some (c := '-') rfl (by decide)) fun c hc => key.closes c ?_
  obtain ⟨d, hd⟩ : ∃ d, key.content.getLast? = some d :=
    ⟨_, List.getLast?_eq_getLast_of_ne_nil key.content_ne_nil⟩
  rw [List.getLast?_append, hd, Option.some_or] at hc
  rwa [hd]

/-- The lines of keys make the fields of these keys. -/
theorem fieldsFrom_eq (keys : List (KeyLines column)) (first : Nat) :
    fieldsFrom (column + 2) (numbered first (keys.flatMap lines)) = ([], keys.map field) := by
  induction keys generalizing first with
  | nil => rfl
  | cons key keys ih =>
    have hstands := key.standsAt (column + 2)
    have hentry : BlockLine.keyEntry? (column + 2) ⟨first, spaces (column + 2) ++ key.content⟩ =
        some key.entry := by
      have hindent : indentOf (spaces (column + 2) ++ key.content) = column + 2 := hstands.indent
      have hcontent : (spaces (column + 2) ++ key.content).dropWhile isIndent =
          key.content := hstands.shown
      simp [BlockLine.keyEntry?, BlockLine.indent, BlockLine.content, hindent, hcontent,
        key.not_isDash_content, key.states]
    rw [List.flatMap_cons, lines, List.cons_append, numbered_cons, numbered_append, fieldsFrom,
      fieldsFrom_append (keyEntry?_of_mem_numbered key.under), ih, hentry]
    simp [field, dedent_numbered]

end KeyLines

/-! ### Items and their lines -/

/-- An item whose dash stands in the column: its keys in the order in which they are written. -/
structure KeyItem (column : Nat) where
  /-- The key behind the dash. -/
  first : KeyLines column
  /-- The keys on the lines below. -/
  others : List (KeyLines column)

namespace KeyItem

variable {column : Nat} (item : KeyItem column)

/-- The lines below the one with the dash. -/
def body : List (List Char) :=
  item.first.nested ++ item.others.flatMap KeyLines.lines

/-- The lines of the item. -/
def lines : List (List Char) :=
  (spaces column ++ (['-', ' '] ++ item.first.content)) :: item.body

/-- The number of its lines. -/
def height : Nat :=
  item.lines.length

/-- The fields of its keys. -/
def fields : List Field :=
  (item.first :: item.others).map KeyLines.field

/-- The item that the lines make, when the first one has the number. -/
def placedAt (number : Nat) : Item :=
  ⟨number, true, item.first.content, column + 2, numbered (number + 1) item.body⟩

/-- What holds of the lines of keys and of the lines under them holds of all lines below the
first. -/
theorem forall_mem_body {holds : List Char → Prop}
    (stated : ∀ key : KeyLines column, holds (spaces (column + 2) ++ key.content))
    (nested : ∀ line, IsNested column line → holds line) : ∀ line ∈ item.body, holds line := by
  intro line hline
  rcases List.mem_append.1 hline with hline | hline
  · exact nested line (item.first.under line hline)
  · obtain ⟨key, -, hkey⟩ := List.mem_flatMap.1 hline
    rcases List.mem_cons.1 hkey with rfl | hkey
    · exact stated key
    · exact nested line (key.under line hkey)

/-- Every line below the first is indented up to the keys at least. -/
theorem le_indent_of_mem_body : ∀ line ∈ item.body, column + 2 ≤ indentOf line := by
  refine item.forall_mem_body (fun key => (key.standsAt (column + 2)).indent.ge) fun line h => ?_
  rcases h.under with hdeeper | ⟨heq, -⟩
  · omega
  · exact heq.ge

/-- The fields of the item are those of its keys. -/
theorem fields_placedAt (number : Nat) : (item.placedAt number).fields = item.fields := by
  have hcolumn : (item.placedAt number).keyColumn = column + 2 := by
    have hcontent : item.first.content.isEmpty = false := by
      rw [List.isEmpty_eq_false_iff]
      exact item.first.content_ne_nil
    rw [Item.keyColumn]
    simp only [placedAt, hcontent, leastIndent, map_indent_numbered]
    cases hleast : (item.body.map indentOf).min? with
    | none => rfl
    | some least =>
      obtain ⟨line, hline, rfl⟩ := List.mem_map.1 (List.min?_mem hleast)
      have := item.le_indent_of_mem_body line hline
      simp only [Bool.false_eq_true, if_false]
      omega
  rw [Item.fields, hcolumn]
  simp only [placedAt, body, numbered_append,
    fieldsFrom_append (keyEntry?_of_mem_numbered item.first.under), KeyLines.fieldsFrom_eq,
    item.first.states, List.append_nil, dedent_numbered]
  rfl

/-- The lines of an item belong to the block of a key in the first column, also if the dash stands
there. -/
theorem isBlockLine_of_mem_lines : ∀ line ∈ item.lines, IsBlockLine line := by
  refine List.forall_mem_cons.2 ⟨?_, item.forall_mem_body (fun key => ?_) fun line h => ?_⟩
  · have hline : IsOneLine (spaces column ++ (['-', ' '] ++ item.first.content)) :=
      isOneLine_append.2 ⟨isOneLine_spaces _, isOneLine_append.2 ⟨by decide, item.first.oneLine⟩⟩
    exact (item.first.standsAt_dash column).isBlockLine hline (.inr rfl)
  · have hline : IsOneLine (spaces (column + 2) ++ key.content) :=
      isOneLine_append.2 ⟨isOneLine_spaces _, key.oneLine⟩
    exact (key.standsAt (column + 2)).isBlockLine hline (.inl (by omega))
  · refine ⟨h.text, h.carries, h.oneLine, .inl ?_⟩
    rcases h.under with hdeeper | ⟨heq, -⟩ <;> omega

/-- The item as lines of the block. -/
def itemLines : ItemLines column where
  opening := spaces column ++ (['-', ' '] ++ item.first.content)
  body := item.body
  indent_opening := (item.first.standsAt_dash column).indent
  lt_indent line hline := Nat.lt_of_lt_of_le (by omega) (item.le_indent_of_mem_body line hline)
  isBlockLine := item.isBlockLine_of_mem_lines

/-- The first line of the item opens it. -/
theorem placedAt_itemLines (number : Nat) :
    item.itemLines.placedAt number = item.placedAt number := by
  have hstands := item.first.standsAt_dash column
  obtain ⟨c, cs, hcontent, hc⟩ := item.first.opens
  have hdash : isDash (['-', ' '] ++ item.first.content) = true := rfl
  have hafter : afterDash (['-', ' '] ++ item.first.content) = (item.first.content, 2) := by
    rw [hcontent]
    exact afterDash_of_first (not_blank_of_isAsciiWord hc) cs
  simp only [ItemLines.placedAt, itemLines, Item.ofLine, BlockLine.content, BlockLine.indent,
    hstands.shown, hstands.indent, hdash, hafter, if_true]
  rfl

end KeyItem

/-! ### Blocks of items -/

section Blocks

variable {column : Nat}

/-- The items of the block `parameters` declare what their fields declare, each on its first
line. -/
theorem parameters_keyItems {α : Type} (item : α → KeyItem column)
    {declaration : α → Nat → ParameterDeclaration}
    (h : ∀ a line, parameterOfFields? (item a).fields line = some (declaration a line))
    (as : List α) (ended : Bool) :
    parameters (textOf ("parameters:".toList :: as.flatMap fun a => (item a).lines) ended) =
      (placed (fun a => (item a).height) 1 as).map fun q => declaration q.2 q.1 := by
  have hitems :
      (as.flatMap fun a => (item a).lines) =
        (as.map fun a => (item a).itemLines).flatMap ItemLines.lines := by
    rw [List.flatMap_map]
    rfl
  rw [hitems, ItemLines.parameters_eq, placed_map, List.filterMap_map, ← List.filterMap_eq_map']
  refine List.filterMap_congr fun q _ => ?_
  have hdashed : ((item q.2).placedAt q.1).dashed = true := rfl
  have hline : ((item q.2).placedAt q.1).line = q.1 := rfl
  simp only [Function.comp_apply, (item q.2).placedAt_itemLines, parameterOfItem?, hdashed, if_true,
    (item q.2).fields_placedAt, hline, h]

end Blocks

end TemplateAtlas.Template
