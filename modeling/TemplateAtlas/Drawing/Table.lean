/-!
# Tables

Rows of cells under headers, drawn with dashes and bars. A column is as wide as its widest cell in
characters; cells that a row lacks are empty, and cells beyond the headers are not shown.
-/

namespace TemplateAtlas

namespace Table

/-- The width of a cell in characters. -/
def width (cell : String) : Nat :=
  cell.length

/-- The cells of a row under `n` headers. -/
def cellsOf (n : Nat) (row : List String) : List String :=
  (row ++ List.replicate n "").take n

/-- The widths of the columns, grown to hold a row. -/
def widen (widths : List Nat) (row : List String) : List Nat :=
  List.zipWith max widths ((cellsOf widths.length row).map width)

/-- The widths of the columns of a table. -/
def widths (headers : List String) (rows : List (List String)) : List Nat :=
  rows.foldl widen (headers.map width)

/-- So many copies of a character. -/
def fill (n : Nat) (c : Char) : String :=
  String.ofList (List.replicate n c)

/-- A line between rows. -/
def border (widths : List Nat) : String :=
  "+" ++ String.join (widths.map fun w => fill (w + 2) '-' ++ "+")

/-- A cell, padded to the width of its column. -/
def cell (text : String) (w : Nat) : String :=
  " " ++ text ++ fill (w - width text) ' ' ++ " |"

/-- A line of cells. -/
def line (cells : List String) (widths : List Nat) : String :=
  "|" ++ String.join (List.zipWith cell cells widths)

/-- The table as text. -/
def render (headers : List String) (rows : List (List String)) : String :=
  let ws := widths headers rows
  let top := [border ws, line headers ws, border ws]
  let body := rows.map fun row => line (cellsOf headers.length row) ws
  "\n".intercalate (top ++ body ++ [border ws])

end Table

end TemplateAtlas
