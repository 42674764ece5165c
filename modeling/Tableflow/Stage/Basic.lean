import Tableflow.Expr.Basic
import Tableflow.Summary

/-!
Stages: the steps of a pipeline, each of which makes one table from another. Stages load tables by the
name of a source or of a signal that an earlier stage has published with `notify`.
-/

namespace Tableflow

inductive Stage where
  | drop (columns : List String)
  | filter (expr : Expr)
  | groupBy (columns : List String)
  | join (leftTable leftColumn rightTable rightColumn : String)
  | mutate (column : String) (expr : Expr)
  | notify (signal : String)
  | read (source : String)
  | select (columns : List String)
  | sort (columns : List String) (descending : Bool)
  | summarize (summary : Summary) (column : String)
  | ungroup
  | unique (columns : List String)
  deriving BEq, Inhabited

namespace Stage

-- in the order of the palette
def kinds : List String :=
  ["drop", "filter", "groupBy", "join", "mutate", "notify", "read", "select", "sort", "summarize",
    "ungroup", "unique"]

def kind : Stage → String
  | drop _ => "drop"
  | filter _ => "filter"
  | groupBy _ => "groupBy"
  | join _ _ _ _ => "join"
  | mutate _ _ => "mutate"
  | notify _ => "notify"
  | read _ => "read"
  | select _ => "select"
  | sort _ _ => "sort"
  | summarize _ _ => "summarize"
  | ungroup => "ungroup"
  | unique _ => "unique"

def inputs : Stage → List String
  | read source => [source]
  | join leftTable _ rightTable _ => [leftTable, rightTable]
  | _ => []

def signal? : Stage → Option String
  | notify signal => some signal
  | _ => none

end Stage

end Tableflow
