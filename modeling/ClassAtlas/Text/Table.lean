import ClassAtlas.Text.Pieces
import ClassAtlas.Text.Width

/-!
Tables of text in a frame with round corners. Every column is as wide as its widest cell, cells
stand at the left of their column, and a cell of several lines makes its row as many lines high.
-/

namespace ClassAtlas.Text.Table

def lines (cell : String) : List String :=
  split '\n' cell

def cellWidth (cell : String) : Nat :=
  ((lines cell).map width).foldl max 0

def columnWidths (rows : List (List String)) : List Nat :=
  let columns := (rows.map List.length).foldl max 0
  (List.range columns).map fun i =>
    (rows.map fun row => (row[i]?.map cellWidth).getD 0).foldl max 0

/-- So many copies of a character. -/
def copies (n : Nat) (c : Char) : String :=
  String.ofList (List.replicate n c)

/-- A horizontal line of the frame with the given ends and joints. -/
def rule (left joint right : String) (widths : List Nat) : String :=
  left ++ joint.intercalate (widths.map fun w => copies (w + 2) '─') ++ right

/-- A text in a column of the given width. -/
def padded (w : Nat) (text : String) : String :=
  " " ++ text ++ copies (w - width text) ' ' ++ " "

def rowLines (widths : List Nat) (row : List String) : List String :=
  let cells := row.map lines
  let height := (cells.map List.length).foldl max 0
  (List.range height).map fun i =>
    "│" ++ "│".intercalate
      ((widths.zip cells).map fun (w, cell) => padded w (cell.getD i "")) ++ "│"

def render (titles : List String) (rows : List (List String)) : String :=
  let widths := columnWidths (titles :: rows)
  "\n".intercalate
    (rule "╭" "┬" "╮" widths :: rowLines widths titles ++
      rule "├" "┼" "┤" widths :: rows.flatMap (rowLines widths) ++ [rule "╰" "┴" "╯" widths])

/-- A table of labelled values; nothing at all without rows. -/
def ofStats (rows : List (String × String)) : String :=
  if rows.isEmpty then ""
  else render ["Metric", "Value"] (rows.map fun (label, value) => [label, value])

end ClassAtlas.Text.Table
