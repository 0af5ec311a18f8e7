import HeadUnitLink.Text.BoxTable
import HeadUnitLink.Text.JsonString

/-!
# Listings

Items of one kind are listed in one of several formats.  A `Layout` says once
what is shown of an item: its columns, each with a key and, if it is shown in
tables, a title, and the item as one line.  `Layout.render` writes any number
of items in a format.
-/

namespace HeadUnitLink

/-- How items are listed. -/
inductive Format where
  /-- One JSON object to a line. -/
  | json
  /-- One table with a row for every item. -/
  | table
  /-- One line of plain text for every item. -/
  | pretty
  /-- The bytes themselves, where there are any; else like `json`. -/
  | raw
  deriving DecidableEq, Repr

namespace Format

/-- The formats. -/
def all : List Format := [json, table, pretty, raw]

/-- The name of a format. -/
def name : Format → String
  | json => "json"
  | table => "table"
  | pretty => "pretty"
  | raw => "raw"

/-- The format of this name. -/
def ofName? (text : String) : Option Format := all.find? fun format => format.name = text

end Format

/-- One value that is shown of an item. -/
structure Column (α : Type) where
  key : String
  /-- Tables show the column under this title; without one they leave it out. -/
  title : Option String
  value : α → JsonText.Scalar

/-- What is shown of an item. -/
structure Layout (α : Type) where
  columns : List (Column α)
  /-- The item as a line of plain text. -/
  line : α → String

namespace Layout

variable {α : Type}

/-- An item as a JSON object. -/
def objectOf (layout : Layout α) (item : α) : String :=
  JsonText.object (layout.columns.map fun column => (column.key, column.value item))

/-- The columns that a table shows, with their titles. -/
def tableColumns (layout : Layout α) : List (String × (α → JsonText.Scalar)) :=
  layout.columns.filterMap fun column => column.title.map fun title => (title, column.value)

/-- Items as a table. -/
def tableOf (layout : Layout α) (items : List α) : String :=
  let columns := layout.tableColumns
  BoxTable.render (columns.map Prod.fst)
    (items.map fun item => columns.map fun column => (column.2 item).plain)

/-- The lines of a listing. -/
def lines (layout : Layout α) (format : Format) (items : List α) : List String :=
  match format with
  | .json | .raw => items.map layout.objectOf
  | .table => [layout.tableOf items]
  | .pretty => items.map layout.line

/-- A listing, every line with a line break at its end. -/
def render (layout : Layout α) (format : Format) (items : List α) : String :=
  String.join ((layout.lines format items).map fun line => line ++ "\n")

end Layout

end HeadUnitLink
