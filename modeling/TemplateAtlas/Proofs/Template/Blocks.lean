import TemplateAtlas.Proofs.Template.Renumber
import TemplateAtlas.Proofs.Template.Written

/-!
# Blocks that are written

Lines that are written one below the other are read with their numbers (`ofText_textOf`). The lines
below the key `parameters` are its block (`parameters_textOf`). Each line in the column of the items
opens one, and the deeper lines below belong to it (`ItemLines.itemsOf_numbered`), so the items
declare the parameters (`ItemLines.parameters_eq`).
-/

namespace TemplateAtlas.Template

open TemplateAtlas.Text

/-! ### Lines with their numbers -/

/-- The lines without the indentation that they share. -/
def withoutMargin (lines : List (List Char)) : List (List Char) :=
  lines.map (·.drop ((lines.map indentOf).min?.getD 0))

/-- Lines with the same indentation lose all of it. -/
theorem withoutMargin_map_spaces {α : Type} {content : α → List Char} {n : Nat}
    (h : ∀ a, indentOf (spaces n ++ content a) = n) (as : List α) :
    withoutMargin (as.map fun a => spaces n ++ content a) = as.map content := by
  cases as with
  | nil => rfl
  | cons a as =>
    have hleast : (((a :: as).map fun a => spaces n ++ content a).map indentOf).min? = some n := by
      rw [List.min?_eq_some_iff]
      simp [h]
    rw [withoutMargin, hleast, List.map_map]
    refine List.map_congr_left fun b _ => ?_
    have hdrop : (spaces n ++ content b).drop n = content b := List.drop_left' List.length_replicate
    exact hdrop

/-- The lines with their numbers. -/
def numbered (first : Nat) (lines : List (List Char)) : List BlockLine :=
  (lines.zipIdx first).map fun (line, number) => ⟨number, line⟩

section Numbered

variable {first : Nat} {lines lines' : List (List Char)}

theorem numbered_cons (line : List Char) :
    numbered first (line :: lines) = ⟨first, line⟩ :: numbered (first + 1) lines := by
  rw [numbered, List.zipIdx_cons]
  rfl

theorem numbered_append :
    numbered first (lines ++ lines') =
      numbered first lines ++ numbered (first + lines.length) lines' := by
  rw [numbered, List.zipIdx_append, List.map_append]
  rfl

/-- The lines of what is written one below the other have the numbers with which it is placed. -/
theorem numbered_flatMap {α : Type} (lines : α → List (List Char)) (as : List α) (first : Nat) :
    numbered first (as.flatMap lines) =
      (placed (fun a => (lines a).length) first as).flatMap fun p => numbered p.1 (lines p.2) := by
  induction as generalizing first with
  | nil => rfl
  | cons a as ih => rw [List.flatMap_cons, numbered_append, ih, placed, List.flatMap_cons]

theorem text_mem_of_mem_numbered {l : BlockLine} (h : l ∈ numbered first lines) :
    l.text ∈ lines := by
  obtain ⟨p, hp, rfl⟩ := List.mem_map.1 h
  exact List.fst_mem_of_mem_zipIdx hp

theorem map_indent_numbered : (numbered first lines).map BlockLine.indent = lines.map indentOf := by
  rw [numbered, List.map_map]
  conv_rhs => rw [← List.zipIdx_map_fst first lines, List.map_map]
  rfl

theorem dedent_numbered : dedent (numbered first lines) = withoutMargin lines := by
  have htext : (numbered first lines).map BlockLine.text = lines := by
    rw [numbered, List.map_map]
    exact List.zipIdx_map_fst first lines
  rw [dedent, leastIndent, map_indent_numbered, withoutMargin]
  conv_rhs => rw [← htext, List.map_map, htext]
  rfl

/-- Lines without comments that all carry something are carried over with their numbers. -/
theorem carryingFrom_eq_numbered
    (h : ∀ line ∈ lines, isIgnorable line = false ∧ stripComment line = line) :
    carryingFrom first lines = numbered first lines := by
  induction lines generalizing first with
  | nil => rfl
  | cons line lines ih =>
    obtain ⟨hcarries, htext⟩ := h line (by simp)
    rw [carryingFrom_cons, numbered_cons, ih fun other hother => h other (by simp [hother])]
    simp [hcarries, htext]

end Numbered

/-! ### Items -/

section Items

variable {column : Nat}

/-- Lines deeper than the items belong to what stands before them. -/
theorem itemsFrom_append {body : List BlockLine} (h : ∀ l ∈ body, column < l.indent)
    (rest : List BlockLine) :
    itemsFrom column (body ++ rest) =
      (body ++ (itemsFrom column rest).1, (itemsFrom column rest).2) := by
  induction body with
  | nil => rfl
  | cons l body ih =>
    have hdeeper : ¬l.indent ≤ column := Nat.not_le.2 (h l (by simp))
    rw [List.cons_append, itemsFrom, ih fun other hother => h other (by simp [hother])]
    simp [hdeeper]

/-- Where each of the things that are written makes a line in the column of the items and deeper
lines below it, their lines make one item each. -/
theorem itemsOf_flatMap {α : Type} {opening : α → BlockLine} {body : α → List BlockLine}
    (hopening : ∀ a, (opening a).indent = column) (hbody : ∀ a, ∀ l ∈ body a, column < l.indent)
    (as : List α) :
    itemsOf (as.flatMap fun a => opening a :: body a) = as.map fun a =>
      Item.ofLine (opening a) (body a) := by
  have hitems : itemsFrom column (as.flatMap fun a => opening a :: body a) =
      ([], as.map fun a => Item.ofLine (opening a) (body a)) := by
    induction as with
    | nil => rfl
    | cons a as ih =>
      rw [List.flatMap_cons, List.cons_append, itemsFrom, itemsFrom_append (hbody a), ih]
      simp [(hopening a).le]
  cases as with
  | nil => rfl
  | cons a as =>
    have hleast : leastIndent ((a :: as).flatMap fun a => opening a :: body a) = some column := by
      rw [leastIndent, List.min?_eq_some_iff]
      refine ⟨List.mem_map.2 ⟨opening a, by simp, hopening a⟩, ?_⟩
      simp only [List.forall_mem_map, List.mem_flatMap]
      rintro l ⟨other, -, hl⟩
      rcases List.mem_cons.1 hl with rfl | hl
      · exact (hopening other).ge
      · exact (hbody other l hl).le
    rw [itemsOf, hleast]
    simp only [hitems]

end Items

/-! ### The block of a key in the first column -/

section Blocks

/-- The block of a key in the first column, when other lines stand before the key and behind the
block. -/
theorem topLevelBlock_append {key : List Char} {before block after : List BlockLine}
    {header : BlockLine} (hbefore : ∀ l ∈ before, l.isTopLevel key = false)
    (hheader : header.isTopLevel key = true) (hblock : ∀ l ∈ block, l.isUnder 0 = true) :
    topLevelBlock key (before ++ header :: (block ++ after)) =
      block ++ after.takeWhile (·.isUnder 0) := by
  have hafter : linesAfter (·.isTopLevel key) (before ++ header :: (block ++ after)) =
      block ++ after := by
    rw [linesAfter, List.dropWhile_append_of_pos fun l hl => by simp [hbefore l hl],
      List.dropWhile_cons_of_neg (by simp [hheader]), List.tail_cons]
  rw [topLevelBlock, hafter, List.takeWhile_append_of_pos hblock]

/-- The lines below a key in the first column that belong to it are its block. -/
theorem topLevelBlock_cons {key : List Char} {header : BlockLine}
    (hheader : header.isTopLevel key = true) {ls : List BlockLine}
    (h : ∀ l ∈ ls, l.isUnder 0 = true) : topLevelBlock key (header :: ls) = ls := by
  have hblock := @topLevelBlock_append key [] ls [] header (List.forall_mem_nil _) hheader h
  simpa using hblock

/-- A line that is read as it is written and belongs to the block of a key in the first column. -/
structure IsBlockLine (line : List Char) : Prop where
  /-- It has neither a comment nor blanks at its end. -/
  text : stripComment line = line
  /-- It carries something. -/
  carries : isIgnorable line = false
  /-- It has no line breaks. -/
  oneLine : IsOneLine line
  /-- It is indented, or opens an item in the first column. -/
  under : 0 < indentOf line ∨ indentOf line = 0 ∧ isDash (line.dropWhile isIndent) = true

theorem StandsAt.isBlockLine {column : Nat} {content line : List Char}
    (h : StandsAt column content line) (hline : IsOneLine line)
    (hunder : 0 < column ∨ isDash content = true) : IsBlockLine line := by
  refine ⟨h.text, h.isIgnorable_eq, hline, ?_⟩
  rw [h.indent, h.shown]
  exact (Nat.eq_zero_or_pos column).symm.imp id fun hzero => ⟨hzero, hunder.resolve_left (by omega)⟩

theorem IsBlockLine.isUnder_eq {line : List Char} (h : IsBlockLine line) (number : Nat) :
    BlockLine.isUnder 0 ⟨number, line⟩ = true := by
  rw [BlockLine.isUnder, Bool.or_eq_true, Bool.and_eq_true, decide_eq_true_eq, decide_eq_true_eq]
  exact h.under

/-- A text carries its lines and no others, if each of them carries something and has no comment. -/
theorem ofText_textOf {lines : List (List Char)} (hone : ∀ line ∈ lines, IsOneLine line)
    (hcarries : ∀ line ∈ lines, isIgnorable line = false ∧ stripComment line = line)
    (ended : Bool) : BlockLine.ofText (textOf lines ended) = numbered 0 lines := by
  obtain ⟨rest, hrest, hlines⟩ := exists_linesOf_textOf hone ended
  have hnothing : ∀ first, carryingFrom first rest = [] :=
    carryingFrom_of_ignorable fun line hline => by rw [hrest line hline]; decide
  rw [BlockLine.ofText, carryingLines_eq, hlines, carryingFrom_append, hnothing, List.append_nil,
    carryingFrom_eq_numbered hcarries]

/-- The lines below the key `parameters` declare what their items declare. -/
theorem parameters_textOf {block : List (List Char)} (h : ∀ line ∈ block, IsBlockLine line)
    (ended : Bool) :
    parameters (textOf ("parameters:".toList :: block) ended) =
      (itemsOf (numbered 1 block)).filterMap parameterOfItem? := by
  have hone : ∀ line ∈ "parameters:".toList :: block, IsOneLine line :=
    List.forall_mem_cons.2 ⟨by decide, fun line hline => (h line hline).oneLine⟩
  have hcarries : ∀ line ∈ "parameters:".toList :: block, isIgnorable line = false ∧
      stripComment line = line :=
    List.forall_mem_cons.2 ⟨by decide,
      fun line hline => ⟨(h line hline).carries, (h line hline).text⟩⟩
  have hblock : topLevelBlock "parameters".toList (numbered 0 ("parameters:".toList :: block)) =
      numbered 1 block := by
    rw [numbered_cons]
    exact topLevelBlock_cons (by decide) fun l hl =>
      (h l.text (text_mem_of_mem_numbered hl)).isUnder_eq l.number
  rw [parameters, ofText_textOf hone hcarries, parametersIn, hblock]

end Blocks

/-! ### Items of the block -/

/-- The lines of an item: one in the column of the items, and deeper ones below it. -/
structure ItemLines (column : Nat) where
  /-- The line that opens the item. -/
  opening : List Char
  /-- The lines below it. -/
  body : List (List Char)
  /-- The item opens in the column. -/
  indent_opening : indentOf opening = column
  /-- The lines below are deeper. -/
  lt_indent : ∀ line ∈ body, column < indentOf line
  /-- All lines belong to the block. -/
  isBlockLine : ∀ line ∈ opening :: body, IsBlockLine line

namespace ItemLines

variable {column : Nat}

/-- All lines of the item. -/
def lines (item : ItemLines column) : List (List Char) :=
  item.opening :: item.body

/-- The number of its lines. -/
def height (item : ItemLines column) : Nat :=
  item.lines.length

/-- The item that the lines make, when the first one has the number. -/
def placedAt (number : Nat) (item : ItemLines column) : Item :=
  Item.ofLine ⟨number, item.opening⟩ (numbered (number + 1) item.body)

/-- The lines of items, one below the other, make these items. -/
theorem itemsOf_numbered (items : List (ItemLines column)) (first : Nat) :
    itemsOf (numbered first (items.flatMap lines)) =
      (placed height first items).map fun p => p.2.placedAt p.1 := by
  have hopening : ∀ p : Nat × ItemLines column, BlockLine.indent ⟨p.1, p.2.opening⟩ = column :=
    fun p => p.2.indent_opening
  have hbody : ∀ p : Nat × ItemLines column, ∀ l ∈ numbered (p.1 + 1) p.2.body,
      column < l.indent := fun p l hl =>
    p.2.lt_indent l.text (text_mem_of_mem_numbered hl)
  rw [numbered_flatMap]
  exact itemsOf_flatMap hopening hbody _

/-- The items below the key `parameters` declare the parameters. -/
theorem parameters_eq (items : List (ItemLines column)) (ended : Bool) :
    parameters (textOf ("parameters:".toList :: items.flatMap lines) ended) =
      (placed height 1 items).filterMap fun p => parameterOfItem? (p.2.placedAt p.1) := by
  have hblock : ∀ line ∈ items.flatMap lines, IsBlockLine line := by
    intro line hline
    obtain ⟨item, -, hmem⟩ := List.mem_flatMap.1 hline
    exact item.isBlockLine line hmem
  rw [parameters_textOf hblock, itemsOf_numbered, List.filterMap_map]
  rfl

end ItemLines

end TemplateAtlas.Template
