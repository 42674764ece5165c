import Tableflow.Json.Printer
import Tableflow.Json.Reader
import Tableflow.Summary
import Tableflow.Table.Basic

/-!
What can be wrong with a document. An error in a node names the path from the root of the document
to the node, its steps divided by points.
-/

namespace Tableflow

inductive Problem where
  | missingField (key : String)
  | notPositional
  | notNode (json : Json)
  | fieldRequired (node key : String)
  | notName
  | columnNotString
  | notColumns
  | noColumns (node : String)
  | notExpression (family : String)
  | unknownValue (name : String)
  | unknownOperator (name : String)
  | notLogical
  | notFinite
  | notString
  | notDatetime
  | notStage (family : String)
  | unknownStage (kind : String)
  | unknownSummary (name : String)
  | notPipeline
  | notProgram
  | notTable
  | notRow
  | outOfRange
  | notScalar

def Problem.message : Problem → String
  | missingField key => s!"missing '{key}'"
  | notPositional => "expected [family, name, ...]"
  | notNode json => s!"expected a node, got {json.compact}"
  | fieldRequired node key => s!"{node} requires '{key}'"
  | notName => "expected a non-empty string"
  | columnNotString => "column names must be strings"
  | notColumns => "expected a list of column names"
  | noColumns node => s!"{node} requires at least one column"
  | notExpression family => s!"expected an expression, got family '{family}'"
  | unknownValue name => s!"unknown value species '{name}'"
  | unknownOperator name => s!"unknown operator '{name}'"
  | notLogical => "expected true or false"
  | notFinite => "expected a finite number"
  | notString => "expected a string"
  | notDatetime => "expected an ISO-8601 datetime"
  | notStage family => s!"expected a stage, got family '{family}'"
  | unknownStage kind => s!"unknown stage kind '{kind}'"
  | unknownSummary name =>
    let options := ", ".intercalate (Summary.all.map Summary.name)
    s!"unknown summarize function '{name}' (expected one of {options})"
  | notPipeline => "expected an array of stages"
  | notProgram => "expected an object of named pipelines"
  | notTable => "expected an array of rows"
  | notRow => "expected a row object"
  | outOfRange => "number out of range"
  | notScalar => "expected a scalar value"

/-- A problem and the path to the node that has it. -/
structure Malformed where
  path : List String
  problem : Problem

namespace Malformed

/-- The path as text; the root has a name of its own. -/
def pathText (m : Malformed) : String :=
  let text := ".".intercalate m.path
  if text = "" then "<root>" else text

def message (m : Malformed) : String := s!"{m.pathText}: {m.problem.message}"

end Malformed

def Problem.here {α : Type} (problem : Problem) : Except Malformed α := .error ⟨[], problem⟩

def Problem.at {α : Type} (step : String) (problem : Problem) : Except Malformed α :=
  .error ⟨[step], problem⟩

/-- Report an error as one under a step of the path. -/
def Malformed.under {α : Type} (step : String) (outcome : Except Malformed α) : Except Malformed α :=
  outcome.mapError fun m => { m with path := step :: m.path }

inductive DocumentError where
  | notJson
  | malformed (error : Malformed)
  | table (error : TableError)

def DocumentError.message : DocumentError → String
  | notJson => "Invalid JSON"
  | malformed e => e.message
  | table e => e.message

end Tableflow
