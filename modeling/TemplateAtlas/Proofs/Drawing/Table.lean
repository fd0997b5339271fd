import Mathlib.Algebra.GroupWithZero.Nat
import Mathlib.Data.List.Forall2
import TemplateAtlas.Drawing.Table
import TemplateAtlas.Proofs.Text.Pieces

/-!
# The shape of tables

A table is drawn in lines of one width, with the columns divided at the same places in all of them
(`Table.IsTable`). A column is as wide as every cell in it (`Table.fits_widths`), so each row is
filled up to the width of its columns (`Table.toList_line`) and its bars stand below the crosses of
the borders. Line breaks in cells are the only thing that can spoil the shape: a cell is measured in
characters and printed as it is, so a break inside a cell makes one line more. Main statement: the
lines of a table have this shape exactly when no cell that is shown has a line break
(`Table.isTable_render_iff`).
-/

namespace TemplateAtlas.Table

open TemplateAtlas.Text

/-- Lines that show so many columns and rows: a border, the headers, a border, the rows and a
border, all of one width. The crosses of the borders and the bars of the other lines divide the
columns at the same places. -/
structure IsTable (columns rows : Nat) (lines : List (List Char)) : Prop where
  /-- There is one line for each row, one for the headers, and three borders. -/
  length_eq : lines.length = rows + 4
  /-- The lines have one width and are divided at the same places. -/
  aligned : ∃ (width : Nat) (dividers : List Nat), dividers.length = columns + 1 ∧
    (∀ drawn ∈ lines, drawn.length = width) ∧
    ∀ i drawn, lines[i]? = some drawn →
      if i = 0 ∨ i = 2 ∨ i = rows + 3 then ∀ place, drawn[place]? = some '+' ↔ place ∈ dividers
      else ∀ place ∈ dividers, drawn[place]? = some '|'

/-! ### Lines that are divided -/

/-- Pieces with a divider in front of each and behind the last. -/
def divided (divider : Char) (pieces : List (List Char)) : List Char :=
  divider :: pieces.flatMap (· ++ [divider])

/-- The places of the dividers, when the first stands at `first` and the pieces have these
lengths. -/
def dividers (first : Nat) : List Nat → List Nat
  | [] => [first]
  | n :: ns => first :: dividers (first + n + 1) ns

section Divided

variable {divider : Char} {pieces : List (List Char)}

theorem length_dividers (first : Nat) (lengths : List Nat) :
    (dividers first lengths).length = lengths.length + 1 := by
  induction lengths generalizing first with
  | nil => rfl
  | cons n lengths ih => rw [dividers, List.length_cons, ih, List.length_cons]

theorem length_divided (divider : Char) (pieces : List (List Char)) :
    (divided divider pieces).length = ((pieces.map List.length).map (· + 1)).sum + 1 := by
  simp [divided, List.length_flatMap, Function.comp_def]

theorem divided_cons (divider : Char) (piece : List Char) (pieces : List (List Char)) :
    divided divider (piece :: pieces) = divider :: (piece ++ divided divider pieces) := by
  simp [divided]

theorem le_of_mem_dividers {first place : Nat} {lengths : List Nat}
    (h : place ∈ dividers first lengths) : first ≤ place := by
  induction lengths generalizing first with
  | nil => exact Nat.le_of_eq (List.mem_singleton.1 h).symm
  | cons n lengths ih =>
    rcases List.mem_cons.1 h with rfl | h
    · exact Nat.le_refl _
    · have := ih h
      omega

/-- A divider stands in every place of one. -/
theorem getElem?_of_mem_dividers (first : Nat) {place : Nat}
    (h : first + place ∈ dividers first (pieces.map List.length)) :
    (divided divider pieces)[place]? = some divider := by
  induction pieces generalizing first place with
  | nil =>
    obtain rfl : place = 0 := by
      have := List.mem_singleton.1 h
      omega
    rfl
  | cons piece pieces ih =>
    rw [divided_cons]
    rw [List.map_cons, dividers] at h
    rcases List.mem_cons.1 h with hfirst | h
    · obtain rfl : place = 0 := by omega
      rfl
    · have hle := le_of_mem_dividers h
      obtain ⟨below, rfl⟩ : ∃ below, place = piece.length + below + 1 :=
        ⟨place - piece.length - 1, by omega⟩
      rw [List.getElem?_cons_succ, List.getElem?_append_right (by omega), Nat.add_sub_cancel_left]
      refine ih (first + piece.length + 1) ?_
      rwa [show first + piece.length + 1 + below = first + (piece.length + below + 1) by omega]

/-- Dividers stand in no other places, if no piece holds one. -/
theorem mem_dividers_of_getElem? (hpieces : ∀ piece ∈ pieces, divider ∉ piece) (first : Nat)
    {place : Nat} (h : (divided divider pieces)[place]? = some divider) :
    first + place ∈ dividers first (pieces.map List.length) := by
  induction pieces generalizing first place with
  | nil =>
    obtain rfl : place = 0 := by
      have := (List.getElem?_eq_some_iff.1 h).1
      rw [divided, List.flatMap_nil, List.length_singleton] at this
      omega
    exact List.mem_singleton_self _
  | cons piece pieces ih =>
    rw [List.forall_mem_cons] at hpieces
    rw [divided_cons] at h
    rw [List.map_cons, dividers]
    cases place with
    | zero => exact List.mem_cons_self
    | succ place =>
      rw [List.getElem?_cons_succ] at h
      by_cases hlt : place < piece.length
      · rw [List.getElem?_append_left hlt] at h
        exact absurd (List.mem_of_getElem? h) hpieces.1
      · rw [List.getElem?_append_right (Nat.le_of_not_lt hlt)] at h
        have hlater := ih hpieces.2 (first + piece.length + 1) h
        rw [show first + (place + 1) = first + piece.length + 1 + (place - piece.length) by omega]
        exact List.mem_cons_of_mem _ hlater

end Divided

/-! ### Columns that are wide enough -/

/-- Each cell fits into its column. -/
def Fits (cells : List String) (widths : List Nat) : Prop :=
  List.Forall₂ (fun cell w => width cell ≤ w) cells widths

section Widths

variable {cells : List String} {ws ws' : List Nat}

theorem Fits.length_eq (h : Fits cells ws) : cells.length = ws.length :=
  List.Forall₂.length_eq h

theorem Fits.mono (h : Fits cells ws) (hle : List.Forall₂ (· ≤ ·) ws ws') : Fits cells ws' := by
  induction h generalizing ws' with
  | nil =>
    cases hle
    exact .nil
  | cons hcell _ ih =>
    cases hle with
    | cons hw hle => exact .cons (Nat.le_trans hcell hw) (ih hle)

theorem length_cellsOf (n : Nat) (row : List String) : (cellsOf n row).length = n := by
  rw [cellsOf, List.length_take, List.length_append, List.length_replicate]
  omega

/-- A row that widens the columns fits into them, and no column becomes narrower. -/
theorem fits_zipWith_max (h : cells.length = ws.length) :
    Fits cells (List.zipWith max ws (cells.map width)) ∧
      List.Forall₂ (· ≤ ·) ws (List.zipWith max ws (cells.map width)) := by
  induction ws generalizing cells with
  | nil =>
    obtain rfl := List.length_eq_zero_iff.1 h
    exact ⟨.nil, .nil⟩
  | cons w ws ih =>
    cases cells with
    | nil => simp at h
    | cons cell cells =>
      obtain ⟨hfits, hle⟩ := ih (Nat.succ.inj h)
      exact ⟨.cons (Nat.le_max_right _ _) hfits, .cons (Nat.le_max_left _ _) hle⟩

/-- Rows that widen the columns fit into them, and so does all that did before. -/
theorem fits_foldl_widen (ws : List Nat) (rows : List (List String)) :
    (∀ cells, Fits cells ws → Fits cells (rows.foldl widen ws)) ∧
      ∀ row ∈ rows, Fits (cellsOf ws.length row) (rows.foldl widen ws) := by
  induction rows generalizing ws with
  | nil => exact ⟨fun cells h => h, List.forall_mem_nil _⟩
  | cons row rows ih =>
    obtain ⟨hfits, hle⟩ := fits_zipWith_max (length_cellsOf ws.length row)
    obtain ⟨hkeep, hlater⟩ := ih (widen ws row)
    have hlength : (widen ws row).length = ws.length := hle.length_eq.symm
    rw [hlength] at hlater
    exact ⟨fun cells h => hkeep cells (h.mono hle), List.forall_mem_cons.2 ⟨hkeep _ hfits, hlater⟩⟩

/-- The columns hold the headers and all rows. -/
theorem fits_widths (headers : List String) (rows : List (List String)) :
    Fits headers (widths headers rows) ∧
      ∀ row ∈ rows, Fits (cellsOf headers.length row) (widths headers rows) := by
  have hstart : Fits headers (headers.map width) := by
    rw [Fits, List.forall₂_map_right_iff]
    exact List.forall₂_same.2 fun _ _ => Nat.le_refl _
  obtain ⟨hkeep, hrows⟩ := fits_foldl_widen (headers.map width) rows
  rw [List.length_map] at hrows
  exact ⟨hkeep headers hstart, hrows⟩

end Widths

/-! ### Borders and rows -/

section Lines

/-- The text between two bars. -/
def padded (cell : String) (w : Nat) : List Char :=
  ' ' :: (cell.toList ++ List.replicate (w - width cell) ' ' ++ [' '])

theorem toList_border (ws : List Nat) :
    (border ws).toList = divided '+' (ws.map fun w => List.replicate (w + 2) '-') := by
  rw [border, String.toList_append, String.toList_join, divided, List.flatMap_map, List.flatMap_map]
  refine congrArg ('+' :: ·) (List.flatMap_congr fun w _ => ?_)
  simp [fill]

theorem toList_cell (text : String) (w : Nat) : (cell text w).toList = padded text w ++ ['|'] := by
  simp [cell, padded, fill]

theorem toList_line (cells : List String) (ws : List Nat) :
    (line cells ws).toList = divided '|' (List.zipWith padded cells ws) := by
  rw [line, String.toList_append, String.toList_join, divided, List.flatMap_def, List.flatMap_def,
    List.map_zipWith, List.map_zipWith]
  simp only [toList_cell]
  rfl

theorem map_length_padded {cells : List String} {ws : List Nat} (h : Fits cells ws) :
    (List.zipWith padded cells ws).map List.length = ws.map (· + 2) := by
  induction h with
  | nil => rfl
  | @cons cell w _ _ hcell _ ih =>
    have hlength : (padded cell w).length = w + 2 := by
      have : cell.toList.length ≤ w := hcell
      rw [padded, width, List.length_cons, List.length_append, List.length_append,
        List.length_replicate, List.length_singleton, ← String.length_toList]
      omega
    rw [List.zipWith_cons_cons, List.map_cons, ih, List.map_cons, hlength]

theorem length_border (ws : List Nat) :
    (border ws).toList.length = ((ws.map (· + 2)).map (· + 1)).sum + 1 := by
  rw [toList_border, length_divided, List.map_map]
  simp [Function.comp_def]

theorem length_line {cells : List String} {ws : List Nat} (h : Fits cells ws) :
    (line cells ws).toList.length = ((ws.map (· + 2)).map (· + 1)).sum + 1 := by
  rw [toList_line, length_divided, map_length_padded h]

/-- The crosses of a border stand at the dividers. -/
theorem getElem?_border_iff (ws : List Nat) (place : Nat) :
    (border ws).toList[place]? = some '+' ↔ place ∈ dividers 0 (ws.map (· + 2)) := by
  have hlengths : (ws.map fun w => List.replicate (w + 2) '-').map List.length =
      ws.map (· + 2) := by
    simp [Function.comp_def]
  rw [toList_border, ← hlengths]
  constructor
  · intro h
    have hdashes : ∀ piece ∈ ws.map fun w => List.replicate (w + 2) '-', '+' ∉ piece := by
      rw [List.forall_mem_map]
      intro w _ h
      exact absurd (List.eq_of_mem_replicate h) (by decide)
    simpa using mem_dividers_of_getElem? hdashes 0 h
  · intro h
    exact getElem?_of_mem_dividers 0 (by rwa [Nat.zero_add])

/-- The bars of a row stand at the dividers. -/
theorem getElem?_line {cells : List String} {ws : List Nat} (h : Fits cells ws) {place : Nat}
    (hplace : place ∈ dividers 0 (ws.map (· + 2))) : (line cells ws).toList[place]? = some '|' := by
  rw [toList_line]
  refine getElem?_of_mem_dividers 0 ?_
  rwa [map_length_padded h, Nat.zero_add]

theorem newline_notMem_border (ws : List Nat) : '\n' ∉ (border ws).toList := by
  simp [toList_border, divided]

/-- A row is one line of text when its cells are. -/
theorem newline_notMem_line_iff {cells : List String} {ws : List Nat} (h : Fits cells ws) :
    '\n' ∉ (line cells ws).toList ↔ ∀ cell ∈ cells, '\n' ∉ cell.toList := by
  rw [toList_line, divided]
  induction h with
  | nil => simp
  | cons _ _ ih =>
    rw [List.forall_mem_cons, ← ih]
    simp [padded]

end Lines

/-! ### The whole table -/

section Render

variable (headers : List String) (rows : List (List String))

/-- The lines of a table, in order. -/
def lines : List (List Char) :=
  let ws := widths headers rows
  [border ws, line headers ws, border ws].map String.toList ++
    (rows.map fun row => (line (cellsOf headers.length row) ws).toList) ++ [(border ws).toList]

theorem toList_render : (render headers rows).toList = ['\n'].intercalate (lines headers rows) := by
  simp [render, lines, String.toList_intercalate, Function.comp_def]

theorem length_lines : (lines headers rows).length = rows.length + 4 := by
  simp [lines]

/-- The lines have the shape of a table, as long as each is printed as one line. -/
theorem isTable_lines : IsTable headers.length rows.length (lines headers rows) := by
  obtain ⟨hheaders, hrows⟩ := fits_widths headers rows
  refine ⟨length_lines headers rows, ((widths headers rows |>.map (· + 2)).map (· + 1)).sum + 1,
    dividers 0 ((widths headers rows).map (· + 2)), ?_, ?_, ?_⟩
  · rw [length_dividers, List.length_map, hheaders.length_eq]
  · simp only [lines, List.map_cons, List.map_nil, List.forall_mem_append, List.forall_mem_cons,
      List.forall_mem_map]
    simp only [length_border, length_line hheaders, true_and, List.not_mem_nil, false_implies,
      implies_true, and_true]
    exact fun row hrow => length_line (hrows row hrow)
  · intro i drawn hi
    -- Two borders surround the headers, the rows follow, and the last line is the third border.
    match i with
    | 0 =>
      obtain rfl := Option.some.inj hi
      exact getElem?_border_iff _
    | 1 =>
      obtain rfl := Option.some.inj hi
      rw [if_neg (by omega)]
      exact fun place => getElem?_line hheaders
    | 2 =>
      obtain rfl := Option.some.inj hi
      exact getElem?_border_iff _
    | i + 3 =>
      rw [lines, List.append_assoc, List.getElem?_append_right (by simp)] at hi
      by_cases hlt : i < rows.length
      · rw [List.getElem?_append_left (by simpa using hlt)] at hi
        obtain ⟨row, hrow, rfl⟩ := List.mem_map.1 (List.mem_of_getElem? hi)
        rw [if_neg (by omega)]
        exact fun place => getElem?_line (hrows row hrow)
      · rw [List.getElem?_append_right (by simpa using Nat.le_of_not_lt hlt)] at hi
        obtain ⟨hlast, rfl⟩ := List.getElem?_eq_some_iff.1 hi
        simp only [List.map_cons, List.map_nil, List.length_cons, List.length_nil, List.length_map]
          at hlast
        rw [if_pos (by omega), List.getElem_singleton]
        exact getElem?_border_iff _

/-- The empty cells that fill up a short row do not matter to what holds of empty cells. -/
theorem forall_mem_cellsOf_iff {P : String → Prop} (hempty : P "") (n : Nat) (row : List String) :
    (∀ cell ∈ cellsOf n row, P cell) ↔ ∀ cell ∈ row.take n, P cell := by
  rw [cellsOf, List.take_append, List.forall_mem_append, and_iff_left]
  intro cell hcell
  rwa [List.eq_of_mem_replicate (List.mem_of_mem_take hcell)]

/-- Each line is printed as one line, exactly when no cell that is shown has a line break. -/
theorem newline_notMem_lines_iff :
    (∀ drawn ∈ lines headers rows, '\n' ∉ drawn) ↔
      ∀ row ∈ headers :: rows, ∀ cell ∈ row.take headers.length, '\n' ∉ cell.toList := by
  obtain ⟨hheaders, hrows⟩ := fits_widths headers rows
  have hbody :
      (∀ row ∈ rows, '\n' ∉ (line (cellsOf headers.length row) (widths headers rows)).toList) ↔
      ∀ row ∈ rows, ∀ cell ∈ row.take headers.length, '\n' ∉ cell.toList := by
    refine forall₂_congr fun row hrow => ?_
    rw [newline_notMem_line_iff (hrows row hrow), forall_mem_cellsOf_iff (by simp)]
  simp only [lines, List.map_cons, List.map_nil, List.forall_mem_append, List.forall_mem_cons,
    List.forall_mem_map, newline_notMem_border, newline_notMem_line_iff hheaders, hbody,
    List.take_length, List.not_mem_nil, not_false_eq_true, false_implies, implies_true,
    true_and, and_true]

/-- A table has its shape exactly when no cell that is shown has a line break. -/
theorem isTable_render_iff :
    IsTable headers.length rows.length (splitOn '\n' (render headers rows).toList) ↔
      ∀ row ∈ headers :: rows, ∀ cell ∈ row.take headers.length, '\n' ∉ cell.toList := by
  have hne : lines headers rows ≠ [] := by
    rw [← List.length_pos_iff, length_lines]
    omega
  rw [toList_render, splitOn_intercalate_eq_flatMap hne, ← newline_notMem_lines_iff]
  constructor
  · intro h
    rw [← length_flatMap_splitOn_eq_iff, h.length_eq, length_lines]
  · intro h
    rw [flatMap_splitOn h]
    exact isTable_lines headers rows

end Render

end TemplateAtlas.Table
