import Tableflow.Table.Row
import Tableflow.Names
import Tableflow.Text.Quoted

/-!
Tables: rows over a list of columns, with an optional grouping. A grouping is kept with the rows it
was made for, so every operation that changes rows makes it anew.
-/

namespace Tableflow

inductive TableError where
  | unknownColumn (name : String)
  /-- Row number `row` has other columns than the first row. -/
  | raggedRow (row : Nat) (expected found : List String)
  deriving DecidableEq, Repr

def TableError.message : TableError → String
  | unknownColumn name => s!"Unknown column: '{name}'"
  | raggedRow row expected found =>
    s!"Row {row} has columns {Text.quotedList found}, expected {Text.quotedList expected}"

structure Group where
  /-- The cells under the grouping columns, as the first row of the group has them. -/
  key : List Cell
  /-- Numbers of the rows, ascending. -/
  rows : List Nat
  deriving BEq

structure Grouping where
  columns : List String
  /-- Groups in the order of their first rows. -/
  groups : List Group
  deriving BEq

namespace Grouping

/-- Put row number `index` into the group with its key, or into a new group at the end. -/
def assign (columns : List String) (index : Nat) (row : Row) :
    List (List Key × Group) → List (List Key × Group)
  | [] => [(row.key columns, ⟨row.cells columns, [index]⟩)]
  | (key, group) :: rest =>
    if key = row.key columns then (key, { group with rows := group.rows ++ [index] }) :: rest
    else (key, group) :: assign columns index row rest

def build (rows : List Row) (columns : List String) : Grouping :=
  let keyed := rows.zipIdx.foldl (fun groups (row, index) => assign columns index row groups) []
  ⟨columns, keyed.map Prod.snd⟩

end Grouping

structure Table where
  columns : List String
  rows : List Row
  grouping : Option Grouping
  deriving BEq

namespace Table

def empty : Table := ⟨[], [], none⟩

instance : Inhabited Table := ⟨empty⟩

/-- Columns and rows, grouped by `groupColumns` if there are any. -/
def ofParts (columns : List String) (rows : List Row) (groupColumns : Option (List String)) : Table :=
  ⟨columns, rows, groupColumns.map (Grouping.build rows)⟩

def groupColumns (t : Table) : Option (List String) := t.grouping.map Grouping.columns

def hasColumn (t : Table) (name : String) : Bool := t.columns.contains name

/-- Refuse the first name that is no column. -/
def require (t : Table) (names : List String) : Except TableError Unit :=
  match names.find? fun name => !t.hasColumn name with
  | some name => .error (.unknownColumn name)
  | none => .ok ()

def column (t : Table) (name : String) : Except TableError (List Cell) :=
  if t.hasColumn name then .ok (t.rows.filterMap fun row => row.get? name)
  else .error (.unknownColumn name)

def groupBy (t : Table) (columns : List String) : Except TableError Table := do
  t.require columns
  return ofParts t.columns t.rows (some columns)

def ungroup (t : Table) : Table := { t with grouping := none }

/-! ### From rows -/

/-- Whether a row has exactly the given columns, in any order. -/
def fits (columns : List String) (row : Row) : Bool :=
  row.keys.all columns.contains && columns.all row.keys.contains

def arrange (columns : List String) (row : Row) : Row :=
  OrderedMap.ofList (columns.map fun column => (column, row.cell column))

/-- A table of rows with the same columns. The first row gives the order of the columns, and the
first row with other columns is refused. -/
def ofRows (rows : List Row) : Except TableError Table :=
  match rows with
  | [] => .ok empty
  | first :: _ =>
    match rows.zipIdx.find? fun (row, _) => !fits first.keys row with
    | some (row, index) => .error (.raggedRow index first.keys row.keys)
    | none => .ok ⟨first.keys, rows.map (arrange first.keys), none⟩

end Table

end Tableflow
