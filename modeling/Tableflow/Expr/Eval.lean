import Tableflow.Expr.Basic
import Tableflow.Cell.Check
import Tableflow.Cell.Convert
import Tableflow.Table.Row

/-!
The value of an expression in a row. Missing operands give missing results; operands of the wrong
kind are errors. Numbers that are not finite become missing.
-/

namespace Tableflow

inductive EvalError where
  | mismatch (mismatch : Mismatch)
  | unknownColumn (name : String)
  deriving DecidableEq, Repr

def EvalError.message : EvalError → String
  | mismatch m => s!"Type error: {m.message}"
  | unknownColumn name => s!"Unknown column: '{name}'"

namespace EvalError

/-- A demand on kinds as a step of evaluation. -/
def demand (outcome : Except Mismatch Unit) : Except EvalError Unit := outcome.mapError mismatch

end EvalError

open EvalError (demand)

def DatePart.of (d : Datetime) : DatePart → Int
  | year => d.date.year
  | month => d.date.month
  | day => d.date.day
  | weekday => d.date.weekday
  | hours => d.hour
  | minutes => d.minute
  | seconds => d.second

def UnaryOp.apply (op : UnaryOp) (cell : Cell) : Except EvalError Cell :=
  match op with
  | negate => do
    demand (cell.require .number op.name)
    match cell with
    | some (.number x) => return Cell.finite (-x)
    | _ => return none
  | not => do
    demand (cell.require .logical op.name)
    return cell.map fun v => .logical (!v.isTruthy)
  | hasKind kind => return cell.map fun v => .logical (decide (v.kind = kind))
  | isMissing => return some (.logical cell.isNone)
  | convert .logical => return cell.map fun v => .logical v.isTruthy
  | convert .number => return cell.toNumber
  | convert .text => return cell.map fun v => .text v.toText
  | convert .datetime => return cell.toDatetime
  | part piece => do
    demand (cell.require .datetime op.name)
    match cell with
    | some (.datetime d) => return some (.number (Number.ofInt (piece.of d)))
    | _ => return none

def Arithmetic.apply (a b : Float) : Arithmetic → Float
  | add => a + b
  | subtract => a - b
  | multiply => a * b
  | divide => a / b
  | power => Float.pow a b
  | remainder => Number.remainder a b

/-- The truth of a comparison of two values of one kind. -/
def Comparison.holds (op : Comparison) (a b : Value) : Except EvalError Bool :=
  let ordered (test : Ordering → Bool) : Except EvalError Bool :=
    match a.compare? b with
    | some order => .ok (test order)
    | none => .error (.mismatch (.unordered op.name a.kind b.kind))
  match op with
  | equal => .ok (a.equal b)
  | notEqual => .ok (!a.equal b)
  | greater => ordered Ordering.isGT
  | greaterEqual => ordered Ordering.isGE
  | less => ordered Ordering.isLT
  | lessEqual => ordered Ordering.isLE

def Comparison.apply (op : Comparison) (left right : Cell) : Except EvalError Cell := do
  demand (Cell.requireSameKind op.name left right)
  match left, right with
  | some a, some b => return some (.logical (← op.holds a b))
  | _, _ => return none

namespace Expr

/-- The cell that an expression gives in a row with the given number. The left operand is judged
before the right one is evaluated; `and` and `or` give their left operand itself if it decides. -/
def eval (row : Row) (index : Nat) : Expr → Except EvalError Cell
  | constant cell => .ok cell
  | column name =>
    match row.get? name with
    | some cell => .ok cell
    | none => .error (.unknownColumn name)
  | rowIndex => .ok (some (.number (Number.ofNat index)))
  | unary op arg => do
    let cell ← arg.eval row index
    op.apply cell
  | binary (.arithmetic op) left right => do
    let a ← left.eval row index
    demand (a.require .number op.name)
    let b ← right.eval row index
    demand (b.require .number op.name)
    match a, b with
    | some (.number x), some (.number y) => return Cell.finite (op.apply x y)
    | _, _ => return none
  | binary (.comparison op) left right => do
    let a ← left.eval row index
    let b ← right.eval row index
    op.apply a b
  | binary .and left right => do
    let a ← left.eval row index
    if a.isTruthy then right.eval row index else return a
  | binary .or left right => do
    let a ← left.eval row index
    if a.isTruthy then return a else right.eval row index
  | ifElse condition yes no => do
    let chosen ← condition.eval row index
    match chosen with
    | none => return none
    | some v => if v.isTruthy then yes.eval row index else no.eval row index

end Expr

end Tableflow
