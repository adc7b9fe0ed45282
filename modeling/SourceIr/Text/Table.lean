import SourceIr.Text.Width

/-!
# Tables in a box

A table with a header, drawn with box characters.  A column is as wide as the widest line in one
of its cells, with a blank on either side.  A cell may have several lines; the cells beside it
are filled up with blank lines.
-/

namespace SourceIr.Text

/-- A horizontal line of a box: its left end, its stroke, its crossings and its right end. -/
structure Rule where
  left : String
  stroke : Char
  crossing : String
  right : String

namespace Rule

/-- The line above the header. -/
def top : Rule := ⟨"┌", '─', "┬", "┐"⟩

/-- The line below the header. -/
def belowHeader : Rule := ⟨"╞", '═', "╪", "╡"⟩

/-- The line between two rows. -/
def between : Rule := ⟨"├", '╌', "┼", "┤"⟩

/-- The line below the last row. -/
def bottom : Rule := ⟨"└", '─', "┴", "┘"⟩

/-- The line over columns of these widths. -/
def draw (r : Rule) (widths : List Nat) : String :=
  r.left ++ r.crossing.intercalate (widths.map fun w => String.ofList (List.replicate (w + 2) r.stroke))
    ++ r.right

end Rule

/-- The lines of a cell. -/
def cellLines (cell : String) : List String := cell.splitOn "\n"

/-- The width of a cell. -/
def cellWidth (cell : String) : Nat := ((cellLines cell).map width).foldl max 0

/-- The widths of the columns of some rows. -/
def columnWidths : List (List String) → List Nat
  | [] => []
  | row :: rest =>
    let widths := row.map cellWidth
    match columnWidths rest with
    | [] => widths
    | others => List.zipWith max widths others

/-- A line of a cell, filled up to the width of its column, between blanks. -/
def padded (columnWidth : Nat) (line : String) : String :=
  " " ++ line ++ String.ofList (List.replicate (columnWidth - width line) ' ') ++ " "

/-- The lines of a row. -/
def rowLines (widths : List Nat) (row : List String) : List String :=
  let cells := row.map cellLines
  let height := (cells.map List.length).foldl max 0
  (List.range height).map fun i =>
    "│" ++ "┆".intercalate (List.zipWith (fun w lines => padded w (lines.getD i "")) widths cells)
      ++ "│"

/-- The lines of some rows with a rule between each two. -/
def bodyLines (widths : List Nat) : List (List String) → List String
  | [] => []
  | [row] => rowLines widths row
  | row :: rest => rowLines widths row ++ Rule.between.draw widths :: bodyLines widths rest

/-- The table with this header and these rows. -/
def boxed (header : List String) (rows : List (List String)) : String :=
  let widths := columnWidths (header :: rows)
  "\n".intercalate
    (Rule.top.draw widths :: rowLines widths header ++
      Rule.belowHeader.draw widths :: bodyLines widths rows ++ [Rule.bottom.draw widths])

end SourceIr.Text
