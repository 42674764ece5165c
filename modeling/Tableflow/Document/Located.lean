import Tableflow.Document.Program

/-!
Documents read with the path at hand. Every reader is given the text of the path to what it reads and
reports its errors there, instead of leaving the steps of the path to those who called it.
-/

namespace Tableflow

/-- A problem and the text of the path to it. -/
structure Located where
  path : String
  problem : Problem

namespace Located

def below (path field : String) : String := if path = "" then field else s!"{path}.{field}"

def fail {α : Type} (path : String) (problem : Problem) : Except Located α :=
  .error ⟨if path = "" then "<root>" else path, problem⟩

end Located

open Located

/-- A node that knows where it is. -/
structure PlacedNode (whole : Json) extends Node whole where
  path : String

namespace PlacedNode

def read (json : Json) (path : String) : Except Located (PlacedNode json) :=
  match json with
  | .object fields =>
    match (fields.lookup "family").bind Json.string? with
    | none => fail path (.missingField "family")
    | some family =>
      match (fields.lookup (Node.nameKey family)).bind Json.string? with
      | none => fail path (.missingField (Node.nameKey family))
      | some name => .ok ⟨⟨family, name, .named fields, Node.sizeOf_named_lt fields⟩, path⟩
  | .array (.string family :: .string name :: rest) =>
    .ok ⟨⟨family, name, .positional rest, Node.sizeOf_positional_lt family name rest⟩, path⟩
  | .array _ => fail path .notPositional
  | other => fail path (.notNode other)

variable {whole : Json} (node : PlacedNode whole) (key : String) (position : Nat)

def required : Except Located (Json.Part whole) :=
  match node.field? key position with
  | some part => .ok part
  | none => fail node.path (.fieldRequired node.name key)

def string : Except Located String := do
  let ⟨part, _⟩ ← node.required key position
  match part with
  | .string s =>
    let trimmed := Text.trim s
    if trimmed = "" then fail (below node.path key) .notName else return trimmed
  | _ => fail (below node.path key) .notName

def columns : Except Located (List String) := do
  let path := below node.path key
  let ⟨part, _⟩ ← node.required key position
  let names ← match part with
    | .string s => Except.ok ((Node.splitCommas s.toList).map String.ofList)
    | .array items =>
      match Node.stringItems? items with
      | some names => Except.ok names
      | none => fail path .columnNotString
    | _ => fail path .notColumns
  let columns := (names.map Text.trim).filter fun name => name ≠ ""
  if columns.isEmpty then fail path (.noColumns node.name) else return columns

end PlacedNode

def Cell.readAt (json : Json) (path : String) : Except Located Cell :=
  match Cell.ofJson json with
  | .ok cell => .ok cell
  | .error problem => fail path problem

namespace Expr

variable {whole : Json} (node : PlacedNode whole)

def leafAt : Except Located Expr :=
  let path := below node.path "value"
  match node.name with
  | "absent" => return constant none
  | "rowIndex" => return rowIndex
  | "column" => return column (← node.string "value" 0)
  | "logical" => do
    match (← node.required "value" 0).val with
    | .bool b => return constant (some (.logical b))
    | _ => fail path .notLogical
  | "number" => do
    match (← node.required "value" 0).val.number? with
    | some x => if x.isFinite then return constant (some (.number x)) else fail path .notFinite
    | none => fail path .notFinite
  | "text" => textAt path
  | "string" => textAt path
  | "datetime" => do
    let cell ← Cell.readAt (← node.required "value" 0).val path
    match cell.toDatetime with
    | some v => return constant (some v)
    | none => fail path .notDatetime
  | other => fail node.path (.unknownValue other)
where
  textAt (path : String) : Except Located Expr := do
    match (← node.required "value" 0).val with
    | .string s => return constant (some (.text s))
    | _ => fail path .notString

def readAt (json : Json) (path : String) : Except Located Expr := do
  let node ← PlacedNode.read json path
  if node.family = Node.valueFamily then leafAt node
  else if node.family = Node.operatorFamily then
    match UnaryOp.ofName? node.name with
    | some op =>
      let ⟨arg, _⟩ ← node.required "arg" 0
      let arg ← readAt arg (below node.path "arg")
      return unary op arg
    | none =>
      match BinaryOp.ofName? node.name with
      | some op =>
        let ⟨left, _⟩ ← node.required "left" 0
        let left ← readAt left (below node.path "left")
        let ⟨right, _⟩ ← node.required "right" 1
        let right ← readAt right (below node.path "right")
        return binary op left right
      | none =>
        if node.name = "ifElse" then
          let ⟨condition, _⟩ ← node.required "left" 0
          let condition ← readAt condition (below node.path "left")
          let ⟨yes, _⟩ ← node.required "middle" 1
          let yes ← readAt yes (below node.path "middle")
          let ⟨no, _⟩ ← node.required "right" 2
          let no ← readAt no (below node.path "right")
          return ifElse condition yes no
        else fail node.path (.unknownOperator node.name)
  else fail path (.notExpression node.family)
termination_by sizeOf json

end Expr

def PlacedNode.expr {whole : Json} (node : PlacedNode whole) (key : String) (position : Nat) :
    Except Located Expr := do
  let part ← node.required key position
  Expr.readAt part.val (below node.path key)

namespace Stage

variable {whole : Json} (node : PlacedNode whole) (path : String)

def descendingAt : Except Located Bool :=
  match (node.field? "descending" 1).map Subtype.val with
  | none => .ok false
  | some .null => .ok false
  | some (.bool b) => .ok b
  | some _ => fail (below path "descending") .notLogical

def summaryAt : Except Located Summary := do
  let name ← node.string "func" 0
  match Summary.ofName? name with
  | some summary => return summary
  | none => fail (below path "func") (.unknownSummary name)

def kindAt : Except Located Stage :=
  match node.name with
  | "drop" => return drop (← node.columns "columns" 0)
  | "filter" => return filter (← node.expr "expr" 0)
  | "groupBy" => return groupBy (← node.columns "columns" 0)
  | "group" => return groupBy (← node.columns "columns" 0)
  | "join" => do
    let leftTable ← node.string "leftTable" 0
    let leftColumn ← node.string "leftColumn" 1
    let rightTable ← node.string "rightTable" 2
    let rightColumn ← node.string "rightColumn" 3
    return join leftTable leftColumn rightTable rightColumn
  | "mutate" => do
    let column ← node.string "column" 0
    let e ← node.expr "expr" 1
    return mutate column e
  | "notify" => return notify (← node.string "signal" 0)
  | "read" => return read (← node.string "source" 0)
  | "select" => return select (← node.columns "columns" 0)
  | "sort" => do
    let columns ← node.columns "columns" 0
    let descending ← descendingAt node path
    return sort columns descending
  | "summarize" => do
    let summary ← summaryAt node path
    let column ← node.string "column" 1
    return summarize summary column
  | "ungroup" => return ungroup
  | "unique" => return unique (← node.columns "columns" 0)
  | other => fail path (.unknownStage other)

def readAt (json : Json) (path : String) : Except Located Stage := do
  let node ← PlacedNode.read json path
  if node.family = Node.stageFamily then kindAt node path else fail path (.notStage node.family)

end Stage

namespace Pipeline

def stagesAt (path : String) (index : Nat) : List Json → Except Located (List Stage)
  | [] => .ok []
  | json :: rest => do
    let stage ← Stage.readAt json s!"{path}[{index}]"
    let stages ← stagesAt path (index + 1) rest
    return stage :: stages

def readAt (json : Json) (path : String) : Except Located Pipeline :=
  match json with
  | .array items => (stagesAt path 0 items).map Pipeline.mk
  | _ => fail path .notPipeline

end Pipeline

namespace Program

/-- The entries of an object, each pipeline at the path of its name. -/
def entriesAt : List (String × Json) → Except Located (List (String × Pipeline))
  | [] => .ok []
  | (name, json) :: rest => do
    let pipeline ← Pipeline.readAt json name
    let entries ← entriesAt rest
    return (name, pipeline) :: entries

def readAt (json : Json) (path : String) : Except Located Program :=
  match json with
  | .object fields => (entriesAt fields).map fun entries => ⟨OrderedMap.ofList entries⟩
  | _ => fail path .notProgram

end Program

namespace Table

def fieldsAt (path : String) : List (String × Json) → Except Located (List (String × Cell))
  | [] => .ok []
  | (name, json) :: rest => do
    let cell ← Cell.readAt json (below path name)
    let entries ← fieldsAt path rest
    return (name, cell) :: entries

def rowAt (json : Json) (path : String) : Except Located Row :=
  match json with
  | .object fields => (fieldsAt path fields).map OrderedMap.ofList
  | _ => fail path .notRow

def rowsAt (index : Nat) : List Json → Except Located (List Row)
  | [] => .ok []
  | json :: rest => do
    let row ← rowAt json s!"[{index}]"
    let rows ← rowsAt (index + 1) rest
    return row :: rows

end Table

end Tableflow
