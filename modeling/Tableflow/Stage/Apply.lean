import Tableflow.Context
import Tableflow.Expr.Eval
import Tableflow.Log
import Tableflow.Stage.Basic
import Tableflow.StableSort

/-!
The effect of a stage on a table. Grouped tables stay grouped, by the same columns over the new
rows, as long as all those columns are still there.
-/

namespace Tableflow

inductive StageError where
  | eval (error : EvalError)
  | table (error : TableError)
  | unknownTable (name : String)
  | selfJoin (name : String)
  | columnCollision (name : String)
  /-- A row has no cell under a column of its table. -/
  | absentCell (column : String)
  deriving DecidableEq, Repr

def StageError.message : StageError → String
  | eval e => e.message
  | table e => e.message
  | unknownTable name => s!"Unknown table: '{name}' is neither a published signal nor a data source"
  | selfJoin name => s!"Cannot join table '{name}' with itself"
  | columnCollision name => s!"Join output column '{name}' would appear twice"
  | absentCell column => s!"Row without a cell for column '{column}'"

namespace Table

def requireFor (t : Table) (names : List String) : Except StageError Unit :=
  (t.require names).mapError .table

/-- The grouping columns if all of them are among the columns. -/
def survivingGroup (groupColumns : Option (List String)) (columns : List String) :
    Option (List String) :=
  groupColumns.filter fun names => names.all columns.contains

/-! ### Columns -/

def dropColumns (t : Table) (names : List String) : Except StageError Table := do
  t.requireFor names
  let columns := t.columns.filter fun column => !names.contains column
  let rows := t.rows.map fun row => names.foldl OrderedMap.erase row
  return ofParts columns rows (survivingGroup t.groupColumns columns)

/-- The cells under the columns, each moved out of the row. -/
def moveCells : List String → Row → List (String × Cell)
  | [], _ => []
  | column :: rest, row => (column, row.cell column) :: moveCells rest (row.swapErase column)

def select (t : Table) (names : List String) : Except StageError Table := do
  t.requireFor names
  let columns := Names.distinct names
  let rows := t.rows.map fun row => OrderedMap.ofList (moveCells columns row)
  return ofParts columns rows (survivingGroup t.groupColumns columns)

/-! ### Rows -/

def evalFrom (e : Expr) (index : Nat) : List Row → Except EvalError (List Cell)
  | [] => .ok []
  | row :: rest => do
    let cell ← e.eval row index
    let cells ← evalFrom e (index + 1) rest
    return cell :: cells

/-- The cells that an expression gives in the rows of a table that has all its columns. -/
def evaluate (t : Table) (e : Expr) : Except StageError (List Cell) := do
  t.requireFor e.columns
  (evalFrom e 0 t.rows).mapError .eval

def filter (t : Table) (e : Expr) : Except StageError Table := do
  let cells ← t.evaluate e
  let kept := (t.rows.zip cells).filter fun (_, cell) => cell.isTruthy
  return ofParts t.columns (kept.map Prod.fst) t.groupColumns

def mutate (t : Table) (column : String) (e : Expr) : Except StageError Table := do
  let cells ← t.evaluate e
  let columns := if t.hasColumn column then t.columns else t.columns ++ [column]
  let rows := List.zipWith (fun (row : Row) cell => row.insert column cell) t.rows cells
  return ofParts columns rows t.groupColumns

/-- The rows whose key is neither in `seen` nor the key of an earlier row. -/
def firstRows (columns : List String) (seen : List (List Key)) : List Row → List Row
  | [] => []
  | row :: rest =>
    let key := row.key columns
    if key ∈ seen then firstRows columns seen rest
    else row :: firstRows columns (key :: seen) rest

def unique (t : Table) (names : List String) : Except StageError Table := do
  t.requireFor names
  return ofParts t.columns (firstRows names [] t.rows) t.groupColumns

/-! ### Order -/

def presentCell (row : Row) (column : String) : Except StageError Cell :=
  match row.get? column with
  | some cell => .ok cell
  | none => .error (.absentCell column)

def compareCells : List Cell → List Cell → Ordering
  | a :: as, b :: bs => (Cell.compare a b).then (compareCells as bs)
  | _, _ => .eq

/-- The first value of another kind than the first value of the list. -/
def oddKind? (cells : List Cell) : Option (Kind × Kind) :=
  match cells.filterMap id with
  | [] => none
  | first :: rest =>
    (rest.find? fun v => decide (v.kind ≠ first.kind)).map fun v => (first.kind, v.kind)

/-- A column can be sorted by if it has one kind of values beside missing cells. -/
def requireSortable (t : Table) (column : String) : Except StageError Unit := do
  let cells ← (t.column column).mapError .table
  match oddKind? cells with
  | some (first, other) => .error (.eval (.mismatch (.unequal s!"sort on '{column}'" first other)))
  | none => .ok ()

/-- Stable sort by the cells under the columns; rows that tie keep their order either way. -/
def sort (t : Table) (names : List String) (descending : Bool) : Except StageError Table := do
  t.requireFor names
  names.forM t.requireSortable
  let keyed ← t.rows.mapM fun row => do return (← names.mapM (presentCell row), row)
  let order (a b : List Cell × Row) : Ordering :=
    if descending then (compareCells a.1 b.1).swap else compareCells a.1 b.1
  let sorted := stableSort (fun a b => (order a b).isLT) keyed
  return ofParts t.columns (sorted.map Prod.snd) t.groupColumns

/-! ### Groups -/

/-- Keys and row numbers of the groups; without a grouping all rows are one group with no key. -/
def members (t : Table) : List (List Cell × List Nat) :=
  match t.grouping with
  | some grouping => grouping.groups.map fun group => (group.key, group.rows)
  | none => [([], List.range t.rows.length)]

def summarize (t : Table) (s : Summary) (column : String) : Except StageError Table := do
  let cells ← (t.column column).mapError .table
  let groupColumns := t.groupColumns.getD []
  let rows ← t.members.mapM fun (key, numbers) => do
    let picked ← numbers.mapM fun number =>
      match cells[number]? with
      | some cell => Except.ok cell
      | none => .error (.absentCell column)
    let result ← (s.reduce picked).mapError fun e => .eval (.mismatch e)
    return (OrderedMap.ofList (groupColumns.zip key)).insert column result
  let columns := if groupColumns.contains column then groupColumns else groupColumns ++ [column]
  return ofParts columns rows none

/-! ### Joins -/

/-- The column in which a join keeps the common key. -/
def joinColumn : String := "_join_"

def prefixed (table column : String) : String := table ++ "_" ++ column

/-- One row of a join: the key, then the cells of both rows. -/
def joinRow (leftName rightName : String) (key : Cell) (left right : Row) : Row :=
  OrderedMap.ofList <|
    (joinColumn, key) ::
      left.entries.map (fun (column, cell) => (prefixed leftName column, cell)) ++
      right.entries.map (fun (column, cell) => (prefixed rightName column, cell))

abbrev JoinIndex := List (Key × List Row)

namespace JoinIndex

/-- Append a row to those under its key. -/
def push (key : Key) (row : Row) : JoinIndex → JoinIndex
  | [] => [(key, [row])]
  | (other, rows) :: rest =>
    if other = key then (other, rows ++ [row]) :: rest else (other, rows) :: push key row rest

/-- Missing is no key: it meets nothing, not even missing. -/
def add (index : JoinIndex) (entry : Cell × Row) : JoinIndex :=
  if entry.1.key = .missing then index else push entry.1.key entry.2 index

def build (keyed : List (Cell × Row)) : JoinIndex := keyed.foldl add []

end JoinIndex

/-- Every left row meets the rows that the index has under its key. -/
def joinRows (leftName rightName : String) (left : List (Cell × Row)) (right : JoinIndex) : List Row :=
  left.flatMap fun (key, row) =>
    match right.lookup key.key with
    | some partners => partners.map (joinRow leftName rightName key row)
    | none => []

def joinColumns (leftName rightName : String) (left right : Table) : List String :=
  joinColumn :: left.columns.map (prefixed leftName) ++ right.columns.map (prefixed rightName)

def load (c : Context) (name : String) : Except StageError Table :=
  match c.lookup? name with
  | some table => .ok table
  | none => .error (.unknownTable name)

def keyedRows (t : Table) (column : String) : Except StageError (List (Cell × Row)) :=
  t.rows.mapM fun row => do return (← presentCell row column, row)

def join (c : Context) (leftName leftColumn rightName rightColumn : String) :
    Except StageError Table := do
  if leftName = rightName then .error (.selfJoin leftName)
  else
    let left ← load c leftName
    let right ← load c rightName
    left.requireFor [leftColumn]
    right.requireFor [rightColumn]
    let index := JoinIndex.build (← right.keyedRows rightColumn)
    let columns := joinColumns leftName rightName left right
    match Names.firstRepeat? columns with
    | some name => .error (.columnCollision name)
    | none =>
      let keyedLeft ← left.keyedRows leftColumn
      return ofParts columns (joinRows leftName rightName keyedLeft index) none

end Table

namespace Stage

/-- The table that a stage makes of its input. `read` and `join` load their tables from the context
and ignore the input; `notify` passes it on. -/
def apply (c : Context) (stage : Stage) (input : Table) : Except StageError Table :=
  match stage with
  | drop columns => input.dropColumns columns
  | filter e => input.filter e
  | groupBy columns => (input.groupBy columns).mapError .table
  | join leftTable leftColumn rightTable rightColumn =>
    Table.join c leftTable leftColumn rightTable rightColumn
  | mutate column e => input.mutate column e
  | notify _ => .ok input
  | read source => Table.load c source
  | select columns => input.select columns
  | sort columns descending => input.sort columns descending
  | summarize summary column => input.summarize summary column
  | ungroup => .ok input.ungroup
  | unique columns => input.unique columns

def perform (c : Context) (stage : Stage) (input : Table) : Logged (Except StageError Table) := do
  Logged.entry .debug .stages
    s!"applying {stage.kind} to {input.rows.length} rows ({input.columns.length} columns)"
  return stage.apply c input

end Stage

end Tableflow
