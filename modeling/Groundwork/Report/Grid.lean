import Groundwork.Text.Search
import Groundwork.Text.Width

/-!
# Grids

A table drawn with strokes: a header and rows of cells, each in a box of its own.  Every column is as wide as
its widest cell; a cell may have several lines.

Main statements: a border is as wide as its columns ask for (`width_border`), and so is every line of a row
whose cells fit (`width_rowLine`).
-/

namespace Groundwork.Report

/-- A header and rows with as many cells. -/
structure Grid where
  header : List String
  rows : List (List String)
  deriving DecidableEq, Repr, Inhabited

/-- The lines of a cell. -/
def cellLines (cell : String) : List (List Char) := Text.splitOn '\n' cell.toList

/-- The width of a cell: that of its widest line. -/
def cellWidth (cell : String) : Nat := ((cellLines cell).map Text.width).foldl max 0

namespace Grid

/-- The width of every column. -/
def columnWidths (g : Grid) : List Nat :=
  (g.rows.map fun row => row.map cellWidth).foldl (List.zipWith max) (g.header.map cellWidth)

/-- The number of columns that a grid with these widths takes, strokes and blanks included. -/
def totalWidth (widths : List Nat) : Nat := widths.foldr (fun w columns => w + 3 + columns) 1

/-- A line between rows. -/
def border (widths : List Nat) : List Char :=
  '+' :: widths.flatMap fun w => List.replicate (w + 2) '-' ++ ['+']

/-- A line of a row, given the width and the part of each cell. -/
def rowLine (parts : List (Nat × List Char)) : List Char :=
  '|' :: parts.flatMap fun p => ' ' :: Text.fill p.1 p.2 ++ [' ', '|']

/-- The lines of a row: as many as its tallest cell has. -/
def rowLines (widths : List Nat) (row : List String) : List (List Char) :=
  let cells := row.map cellLines
  let height := (cells.map List.length).foldl max 0
  (List.range height).map fun k => rowLine (widths.zip (cells.map fun lines => lines.getD k []))

/-- All lines of a grid. -/
def lines (g : Grid) : List (List Char) :=
  let widths := g.columnWidths
  border widths :: (g.header :: g.rows).flatMap fun row => rowLines widths row ++ [border widths]

/-- The text of a grid. -/
def render (g : Grid) : String := String.join (g.lines.map fun l => String.ofList (l ++ ['\n']))

theorem totalWidth_cons (w : Nat) (ws : List Nat) : totalWidth (w :: ws) = w + 3 + totalWidth ws := rfl

theorem width_border (widths : List Nat) : Text.width (border widths) = totalWidth widths := by
  have dash : Text.charWidth '-' = 1 := by decide
  have plus : Text.charWidth '+' = 1 := by decide
  induction widths with
  | nil => decide
  | cons w ws ih =>
    simp only [border, List.flatMap_cons, Text.width_cons, Text.width_append, Text.width_replicate dash,
      Text.width_nil, plus, totalWidth_cons] at ih ⊢
    omega

theorem width_rowLine {parts : List (Nat × List Char)} (h : ∀ p ∈ parts, Text.width p.2 ≤ p.1) :
    Text.width (rowLine parts) = totalWidth (parts.map (·.1)) := by
  have blank : Text.charWidth ' ' = 1 := by decide
  have stroke : Text.charWidth '|' = 1 := by decide
  induction parts with
  | nil => decide
  | cons p ps ih =>
    have hp : Text.width p.2 ≤ p.1 := h p (List.mem_cons_self ..)
    have hw := Text.width_fill p.1 p.2
    have := ih fun q hq => h q (List.mem_cons_of_mem _ hq)
    simp only [rowLine, List.flatMap_cons, List.cons_append, Text.width_cons, Text.width_append,
      Text.width_nil, blank, stroke, List.map_cons, totalWidth_cons] at this ⊢
    omega

end Grid

end Groundwork.Report
