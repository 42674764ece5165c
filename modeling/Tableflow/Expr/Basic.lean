import Tableflow.Cell.Basic
import Tableflow.Names

/-!
Expressions over the cells of one row, and the operators that they are built from. Every operator
has a name, under which documents and messages refer to it.
-/

namespace Tableflow

/-! ### Operators -/

inductive DatePart where
  | year | month | day | weekday | hours | minutes | seconds
  deriving DecidableEq, Repr

inductive UnaryOp where
  | negate
  | not
  | hasKind (kind : Kind)
  | isMissing
  | convert (kind : Kind)
  | part (part : DatePart)
  deriving DecidableEq, Repr

namespace UnaryOp

def name : UnaryOp → String
  | negate => "negate"
  | not => "not"
  | hasKind .logical => "isLogical"
  | hasKind .number => "isNumber"
  | hasKind .text => "isText"
  | hasKind .datetime => "isDatetime"
  | isMissing => "isMissing"
  | convert .logical => "toLogical"
  | convert .number => "toNumber"
  | convert .text => "toText"
  | convert .datetime => "toDatetime"
  | part .year => "toYear"
  | part .month => "toMonth"
  | part .day => "toDay"
  | part .weekday => "toWeekday"
  | part .hours => "toHours"
  | part .minutes => "toMinutes"
  | part .seconds => "toSeconds"

def all : List UnaryOp :=
  [negate, not, hasKind .logical, hasKind .number, hasKind .text, hasKind .datetime, isMissing,
    convert .logical, convert .number, convert .text, convert .datetime, part .year, part .month,
    part .day, part .weekday, part .hours, part .minutes, part .seconds]

/-- Text may also be called string. -/
def ofName? (name : String) : Option UnaryOp :=
  if name = "isString" then some (hasKind .text)
  else if name = "toString" then some (convert .text)
  else all.find? fun op => op.name = name

end UnaryOp

inductive Arithmetic where
  | add | subtract | multiply | divide | power | remainder
  deriving DecidableEq, Repr

inductive Comparison where
  | equal | notEqual | greater | greaterEqual | less | lessEqual
  deriving DecidableEq, Repr

inductive BinaryOp where
  | arithmetic (op : Arithmetic)
  | comparison (op : Comparison)
  | and
  | or
  deriving DecidableEq, Repr

def Arithmetic.name : Arithmetic → String
  | add => "add"
  | subtract => "subtract"
  | multiply => "multiply"
  | divide => "divide"
  | power => "power"
  | remainder => "remainder"

def Comparison.name : Comparison → String
  | equal => "equal"
  | notEqual => "notEqual"
  | greater => "greater"
  | greaterEqual => "greaterEqual"
  | less => "less"
  | lessEqual => "lessEqual"

namespace BinaryOp

def name : BinaryOp → String
  | arithmetic op => op.name
  | comparison op => op.name
  | and => "and"
  | or => "or"

def all : List BinaryOp :=
  [arithmetic .add, arithmetic .subtract, arithmetic .multiply, arithmetic .divide,
    arithmetic .power, arithmetic .remainder, comparison .equal, comparison .notEqual,
    comparison .greater, comparison .greaterEqual, comparison .less, comparison .lessEqual, and, or]

def ofName? (name : String) : Option BinaryOp := all.find? fun op => op.name = name

end BinaryOp

/-! ### Expressions -/

inductive Expr where
  | constant (cell : Cell)
  | column (name : String)
  /-- The number of the row in its table, from zero. -/
  | rowIndex
  | unary (op : UnaryOp) (arg : Expr)
  | binary (op : BinaryOp) (left right : Expr)
  | ifElse (condition yes no : Expr)
  deriving BEq, Inhabited

namespace Expr

/-- Every mention of a column, from left to right, in branches that may never be taken too. -/
def references : Expr → List String
  | constant _ => []
  | column name => [name]
  | rowIndex => []
  | unary _ arg => arg.references
  | binary _ left right => left.references ++ right.references
  | ifElse condition yes no => condition.references ++ yes.references ++ no.references

/-- The columns that are mentioned, each once, in order of first mention. -/
def columns (e : Expr) : List String := Names.distinct e.references

def name : Expr → String
  | constant none => "absent"
  | constant (some v) => v.kind.name
  | column _ => "column"
  | rowIndex => "rowIndex"
  | unary op _ => op.name
  | binary op _ _ => op.name
  | ifElse _ _ _ => "ifElse"

end Expr

end Tableflow
