/-!
# Tables in boxes

A table is drawn with a frame, a double line below the header and dashed lines
between the rows.  A column is as wide as its widest line, every cell has one
blank on each side, and text starts at the left.  A cell whose text has
several lines makes its row as high.
-/

namespace HeadUnitLink.BoxTable

/-- The lines of a cell. -/
def cellLines (cell : String) : List (List Char) :=
  (cell.toList.splitOnP fun c => c = '\n')

/-- The width of each column of these rows; every row has as many cells. -/
def widths (rows : List (List (List (List Char)))) : List Nat :=
  rows.foldl (fun acc row =>
    let here := row.map fun lines => (lines.map List.length).foldl max 0
    (here.zipIdx.map fun (w, i) => max w (acc.getD i 0))) []

/-- A horizontal line of the box. -/
def rule (left fill joint right : Char) (columns : List Nat) : List Char :=
  let segments := columns.map fun w => List.replicate (w + 2) fill
  left :: [joint].intercalate segments ++ [right]

/-- A cell line of a given width with a blank on each side. -/
def pad (width : Nat) (line : List Char) : List Char :=
  ' ' :: line ++ List.replicate (width - line.length + 1) ' '

/-- The lines of one row of the table. -/
def rowLines (columns : List Nat) (row : List (List (List Char))) : List (List Char) :=
  let height := (row.map List.length).foldl max 0
  (List.range height).map fun i =>
    let cells := (columns.zip row).map fun (width, lines) => pad width (lines.getD i [])
    '│' :: ['┆'].intercalate cells ++ ['│']

/-- The lines of a table. -/
def lines (header : List String) (rows : List (List String)) : List (List Char) :=
  let header := header.map cellLines
  let rows := rows.map fun row => row.map cellLines
  let columns := widths (header :: rows)
  let between := rule '├' '╌' '┼' '┤' columns
  let body := [between].intercalate (rows.map (rowLines columns))
  rule '┌' '─' '┬' '┐' columns :: rowLines columns header ++
    rule '╞' '═' '╪' '╡' columns :: body ++ [rule '└' '─' '┴' '┘' columns]

/-- The text of a table, without a line break at the end. -/
def render (header : List String) (rows : List (List String)) : String :=
  "\n".intercalate ((lines header rows).map String.ofList)

end HeadUnitLink.BoxTable
