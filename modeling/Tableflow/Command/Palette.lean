import Tableflow.Json.Basic
import Tableflow.Stage.Basic

/-!
The palette of the language for editors: all stages, operators, values and summaries by name.
-/

namespace Tableflow.Command

def valueNames : List String :=
  ["absent", "logical", "number", "text", "datetime", "column", "rowIndex"]

def palette : Json :=
  let names (list : List String) : Json := .array (list.map Json.string)
  .object
    [("stages", names Stage.kinds),
      ("operators", .object
        [("unary", names (UnaryOp.all.map UnaryOp.name)),
          ("binary", names (BinaryOp.all.map BinaryOp.name)),
          ("ternary", names ["ifElse"])]),
      ("values", names valueNames),
      ("summarize", names (Summary.all.map Summary.name))]

end Tableflow.Command
