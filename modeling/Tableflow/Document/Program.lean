import Tableflow.Document.Expr
import Tableflow.Program.Basic

/-!
Stages, pipelines and programs as JSON: a pipeline is an array of stage nodes, a program an object
of named pipelines.
-/

namespace Tableflow

namespace Stage

/-! ### Reading -/

def exprField {whole : Json} (node : Node whole) (key : String) (position : Nat) :
    Except Malformed Expr := do
  let part ← node.field key position
  Malformed.under key (Expr.ofJson part.val)

/-- Whether to sort in descending order; null and a missing field mean no. -/
def descendingField {whole : Json} (node : Node whole) : Except Malformed Bool :=
  match (node.field? "descending" 1).map Subtype.val with
  | none => .ok false
  | some .null => .ok false
  | some (.bool b) => .ok b
  | some _ => Problem.notLogical.at "descending"

def summaryField {whole : Json} (node : Node whole) : Except Malformed Summary := do
  let name ← node.nameField "func" 0
  match Summary.ofName? name with
  | some summary => return summary
  | none => (Problem.unknownSummary name).at "func"

/-- The stage that a node of the stage family stands for. -/
def ofNode {whole : Json} (node : Node whole) : Except Malformed Stage :=
  match node.name with
  | "drop" => return drop (← node.columnsField "columns" 0)
  | "filter" => return filter (← exprField node "expr" 0)
  | "groupBy" => return groupBy (← node.columnsField "columns" 0)
  | "group" => return groupBy (← node.columnsField "columns" 0)
  | "join" => do
    let leftTable ← node.nameField "leftTable" 0
    let leftColumn ← node.nameField "leftColumn" 1
    let rightTable ← node.nameField "rightTable" 2
    let rightColumn ← node.nameField "rightColumn" 3
    return join leftTable leftColumn rightTable rightColumn
  | "mutate" => do
    let column ← node.nameField "column" 0
    let e ← exprField node "expr" 1
    return mutate column e
  | "notify" => return notify (← node.nameField "signal" 0)
  | "read" => return read (← node.nameField "source" 0)
  | "select" => return select (← node.columnsField "columns" 0)
  | "sort" => do
    let columns ← node.columnsField "columns" 0
    let descending ← descendingField node
    return sort columns descending
  | "summarize" => do
    let summary ← summaryField node
    let column ← node.nameField "column" 1
    return summarize summary column
  | "ungroup" => return ungroup
  | "unique" => return unique (← node.columnsField "columns" 0)
  | other => (Problem.unknownStage other).here

def ofJson (json : Json) : Except Malformed Stage := do
  let node ← Node.ofJson json
  if node.family = Node.stageFamily then ofNode node else (Problem.notStage node.family).here

/-! ### Writing -/

def namesToJson (names : List String) : Json := .array (names.map Json.string)

def fieldsToJson : Stage → List (String × Json)
  | drop columns => [("columns", namesToJson columns)]
  | filter e => [("expr", e.toJson)]
  | groupBy columns => [("columns", namesToJson columns)]
  | join leftTable leftColumn rightTable rightColumn =>
    [("leftTable", .string leftTable), ("leftColumn", .string leftColumn),
      ("rightTable", .string rightTable), ("rightColumn", .string rightColumn)]
  | mutate column e => [("column", .string column), ("expr", e.toJson)]
  | notify signal => [("signal", .string signal)]
  | read source => [("source", .string source)]
  | select columns => [("columns", namesToJson columns)]
  | sort columns descending => [("columns", namesToJson columns), ("descending", .bool descending)]
  | summarize summary column => [("func", .string summary.name), ("column", .string column)]
  | ungroup => []
  | unique columns => [("columns", namesToJson columns)]

def toJson (stage : Stage) : Json :=
  Expr.nodeToJson Node.stageFamily stage.kind stage.fieldsToJson

end Stage

namespace Pipeline

/-- The stages of an array in the pipeline `name`, numbered from `index`. -/
def stagesOfJson (name : String) (index : Nat) : List Json → Except Malformed (List Stage)
  | [] => .ok []
  | json :: rest => do
    let stage ← Malformed.under s!"{name}[{index}]" (Stage.ofJson json)
    let stages ← stagesOfJson name (index + 1) rest
    return stage :: stages

/-- Read the pipeline with the given name. -/
def ofNamedJson (name : String) : Json → Except Malformed Pipeline
  | .array items => (stagesOfJson name 0 items).map Pipeline.mk
  | _ => Problem.notPipeline.at name

def ofJson (json : Json) : Except Malformed Pipeline := ofNamedJson "" json

def toJson (p : Pipeline) : Json := .array (p.stages.map Stage.toJson)

end Pipeline

namespace Program

def entriesOfJson : List (String × Json) → Except Malformed (List (String × Pipeline))
  | [] => .ok []
  | (name, json) :: rest => do
    let pipeline ← Pipeline.ofNamedJson name json
    let entries ← entriesOfJson rest
    return (name, pipeline) :: entries

def ofJson : Json → Except Malformed Program
  | .object fields => (entriesOfJson fields).map fun entries => ⟨OrderedMap.ofList entries⟩
  | _ => Problem.notProgram.here

def ofText (text : String) : Except DocumentError Program :=
  match Json.ofText? text with
  | some json => (ofJson json).mapError .malformed
  | none => .error .notJson

def toJson (p : Program) : Json :=
  .object (p.pipelines.entries.map fun (name, pipeline) => (name, pipeline.toJson))

end Program

end Tableflow
