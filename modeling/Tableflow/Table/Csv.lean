import Tableflow.Cell.Convert
import Tableflow.Csv.Writer
import Tableflow.Table.Basic

/-!
Tables read from comma-separated text with a header line, where the kind of each cell is inferred
from its text, and tables written in that form.
-/

namespace Tableflow

/-- The cell that a field stands for: empty fields are missing, then `true` and `false`, numbers and
datetimes are tried, and the rest is text. -/
def Cell.infer (field : String) : Cell :=
  let trimmed := Text.trim field
  if trimmed = "" then none
  else if trimmed = "true" then some (.logical true)
  else if trimmed = "false" then some (.logical false)
  else
    let text : Cell := some (.text field)
    text.toNumber.or (text.toDatetime.or text)

inductive CsvError where
  | records (error : Csv.Error)
  | duplicateHeader (name : String)
  deriving DecidableEq, Repr

namespace Table

/-- The row of a record, which has as many fields as there are columns. -/
def rowOfCsv (columns : List String) (number : Nat) (record : Csv.Record) : Except CsvError Row :=
  if record.fields.length = columns.length then
    match record.texts number with
    | .ok fields => .ok (OrderedMap.ofList (columns.zip (fields.map Cell.infer)))
    | .error e => .error (.records e)
  else
    .error (.records (.unequalLengths (some (number, record.place)) columns.length record.fields.length))

def ofCsvRecords (records : List Csv.Record) : Except CsvError Table :=
  match records with
  | [] => .ok empty
  | header :: body => do
    let names ← (header.texts 0).mapError CsvError.records
    let columns := names.map Text.trim
    match Names.firstRepeat? columns with
    | some name => .error (.duplicateHeader name)
    | none =>
      let rows ← body.zipIdx.mapM fun (record, index) => rowOfCsv columns (index + 1) record
      return ⟨columns, rows, none⟩

def ofCsv (bytes : ByteArray) : Except CsvError Table :=
  ofCsvRecords (Csv.records (Text.symbols bytes))

/-- Header and rows as records; a table without columns has no header. -/
def csvRecords (t : Table) : List (List String) :=
  let body := t.rows.map fun row => row.values.map Cell.toText
  if t.columns.isEmpty then body else t.columns :: body

def toCsv (t : Table) : Csv.Output := Csv.write t.csvRecords

end Table

end Tableflow
