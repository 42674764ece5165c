import Tableflow.Cell.Convert
import Tableflow.Document.Basic

/-!
Cells and tables as JSON. Missing cells are null and datetimes are strings, so that they come back
as text.
-/

namespace Tableflow

def Json.number? : Json → Option Float
  | .int n => some (Number.ofInt n)
  | .float x => some x
  | _ => none

namespace Cell

def ofJson : Json → Except Problem Cell
  | .null => .ok none
  | .bool b => .ok (some (.logical b))
  | .string s => .ok (some (.text s))
  | .int n =>
    let x := Number.ofInt n
    if x.isFinite then .ok (some (.number x)) else .error .outOfRange
  | .float x => if x.isFinite then .ok (some (.number x)) else .error .outOfRange
  | .array _ => .error .notScalar
  | .object _ => .error .notScalar

/-- Integers of at most this size are written as integers. -/
def integerLimit : Nat := 9000000000000000

def numberToJson (x : Float) : Json :=
  match Number.toInt? x with
  | some n => if n.natAbs < integerLimit then .int n else .float x
  | none => if x.isFinite then .float x else .null

def toJson : Cell → Json
  | none => .null
  | some (.logical b) => .bool b
  | some (.number x) => numberToJson x
  | some (.text s) => .string s
  | some (.datetime d) => .string d.toText

end Cell

namespace Table

def entriesOfJson : List (String × Json) → Except Malformed (List (String × Cell))
  | [] => .ok []
  | (name, json) :: rest =>
    match Cell.ofJson json with
    | .error problem => problem.at name
    | .ok cell => (entriesOfJson rest).map fun entries => (name, cell) :: entries

def rowOfJson : Json → Except Malformed Row
  | .object fields => (entriesOfJson fields).map OrderedMap.ofList
  | _ => Problem.notRow.here

/-- The rows of an array, numbered from `index`. -/
def rowsOfJson (index : Nat) : List Json → Except Malformed (List Row)
  | [] => .ok []
  | json :: rest => do
    let row ← Malformed.under s!"[{index}]" (rowOfJson json)
    let rows ← rowsOfJson (index + 1) rest
    return row :: rows

def ofJson : Json → Except DocumentError Table
  | .array items => do
    let rows ← (rowsOfJson 0 items).mapError .malformed
    (ofRows rows).mapError .table
  | _ => .error (.malformed ⟨[], .notTable⟩)

def rowToJson (row : Row) : Json :=
  .object (row.entries.map fun (name, cell) => (name, cell.toJson))

def toJson (t : Table) : Json := .array (t.rows.map rowToJson)

end Table

end Tableflow
