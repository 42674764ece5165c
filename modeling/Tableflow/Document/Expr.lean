import Tableflow.Document.Cell
import Tableflow.Document.Node
import Tableflow.Expr.Basic

/-!
Expressions as JSON. Leaves are nodes of the value family, all else of the operator family. Writing
uses objects; reading takes both shapes of nodes.
-/

namespace Tableflow.Expr

/-! ### Reading -/

/-- The constant or reference that a node of the value family stands for. -/
def leafOfNode {whole : Json} (node : Node whole) : Except Malformed Expr :=
  match node.name with
  | "absent" => return constant none
  | "rowIndex" => return rowIndex
  | "column" => return column (← node.nameField "value" 0)
  | "logical" => do
    match (← node.field "value" 0).val with
    | .bool b => return constant (some (.logical b))
    | _ => Problem.notLogical.at "value"
  | "number" => do
    match (← node.field "value" 0).val.number? with
    | some x => if x.isFinite then return constant (some (.number x)) else Problem.notFinite.at "value"
    | none => Problem.notFinite.at "value"
  | "text" => textLeaf
  | "string" => textLeaf
  | "datetime" => do
    match Cell.ofJson (← node.field "value" 0).val with
    | .error problem => problem.at "value"
    | .ok cell =>
      match cell.toDatetime with
      | some v => return constant (some v)
      | none => Problem.notDatetime.at "value"
  | other => (Problem.unknownValue other).here
where
  textLeaf : Except Malformed Expr := do
    match (← node.field "value" 0).val with
    | .string s => return constant (some (.text s))
    | _ => Problem.notString.at "value"

def ofJson (json : Json) : Except Malformed Expr := do
  let node ← Node.ofJson json
  if node.family = Node.valueFamily then leafOfNode node
  else if node.family = Node.operatorFamily then
    match UnaryOp.ofName? node.name with
    | some op =>
      let ⟨arg, _⟩ ← node.field "arg" 0
      let arg ← Malformed.under "arg" (ofJson arg)
      return unary op arg
    | none =>
      match BinaryOp.ofName? node.name with
      | some op =>
        let ⟨left, _⟩ ← node.field "left" 0
        let left ← Malformed.under "left" (ofJson left)
        let ⟨right, _⟩ ← node.field "right" 1
        let right ← Malformed.under "right" (ofJson right)
        return binary op left right
      | none =>
        if node.name = "ifElse" then
          let ⟨condition, _⟩ ← node.field "left" 0
          let condition ← Malformed.under "left" (ofJson condition)
          let ⟨yes, _⟩ ← node.field "middle" 1
          let yes ← Malformed.under "middle" (ofJson yes)
          let ⟨no, _⟩ ← node.field "right" 2
          let no ← Malformed.under "right" (ofJson no)
          return ifElse condition yes no
        else (Problem.unknownOperator node.name).here
  else (Problem.notExpression node.family).here
termination_by sizeOf json

/-! ### Writing -/

/-- The object of a node. -/
def nodeToJson (family name : String) (fields : List (String × Json)) : Json :=
  .object (("family", .string family) :: (Node.nameKey family, .string name) :: fields)

def toJson (e : Expr) : Json :=
  match e with
  | constant none => nodeToJson Node.valueFamily e.name []
  | constant (some v) => nodeToJson Node.valueFamily e.name [("value", Cell.toJson (some v))]
  | column name => nodeToJson Node.valueFamily e.name [("value", .string name)]
  | rowIndex => nodeToJson Node.valueFamily e.name []
  | unary _ arg => nodeToJson Node.operatorFamily e.name [("arg", arg.toJson)]
  | binary _ left right =>
    nodeToJson Node.operatorFamily e.name [("left", left.toJson), ("right", right.toJson)]
  | ifElse condition yes no =>
    nodeToJson Node.operatorFamily e.name
      [("left", condition.toJson), ("middle", yes.toJson), ("right", no.toJson)]

end Tableflow.Expr
