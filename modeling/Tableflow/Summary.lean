import Tableflow.Cell.Check
import Tableflow.Cell.Order
import Tableflow.Number.Decimal

/-!
Summaries: reductions of a column to one cell. Missing cells are left out, and nothing but missing
cells gives missing.
-/

namespace Tableflow

inductive Summary where
  | count | maximum | mean | median | minimum | stdDev | sum | variance
  deriving DecidableEq, Repr

namespace Summary

def name : Summary → String
  | count => "count"
  | maximum => "maximum"
  | mean => "mean"
  | median => "median"
  | minimum => "minimum"
  | stdDev => "stdDev"
  | sum => "sum"
  | variance => "variance"

def all : List Summary := [count, maximum, mean, median, minimum, stdDev, sum, variance]

def ofName? (name : String) : Option Summary := all.find? fun s => s.name = name

/-! ### Numbers -/

def plainSum (xs : List Float) : Float := xs.foldl (· + ·) (-0.0)

/-- Sum in decimal arithmetic, or in binary where that does not reach. -/
def total (xs : List Float) : Float :=
  match Number.Decimal.sum? xs with
  | some d => d.toFloat
  | none => plainSum xs

def average (xs : List Float) : Float :=
  match Number.Decimal.sum? xs with
  | some d => (d.divide xs.length).toFloat
  | none => plainSum xs / Number.ofNat xs.length

/-- Mean square distance from the average. -/
def spread (xs : List Float) : Float :=
  let centre := average xs
  plainSum (xs.map fun x => (x - centre) * (x - centre)) / Number.ofNat xs.length

/-- Numbers in ascending order, negative zero before zero. -/
def ascending (xs : List Float) : List Float :=
  xs.mergeSort fun a b => Number.rank a ≤ Number.rank b

/-- The middle number in ascending order, or half the sum of the two middle ones. -/
def middle (xs : List Float) : Float :=
  let sorted := ascending xs
  let half := xs.length / 2
  let upper := sorted.getD half 0
  if xs.length % 2 = 0 then (sorted.getD (half - 1) 0 + upper) / 2 else upper

/-! ### Reduction -/

def numbers (operation : String) (values : List Value) : Except Mismatch (List Float) :=
  values.mapM fun
    | .number x => .ok x
    | v => .error (.required .number operation v.kind)

/-- The earliest of the values that none of the others goes beyond in the wanted direction. -/
def extreme (operation : String) (wanted : Ordering) (best : Value) :
    List Value → Except Mismatch Value
  | [] => .ok best
  | v :: rest =>
    match v.compare? best with
    | none => .error (.unequal operation best.kind v.kind)
    | some order => extreme operation wanted (if order = wanted then v else best) rest

/-- The summary of a column that has the values `first :: rest`, in order. -/
def reduceValues (s : Summary) (first : Value) (rest : List Value) : Except Mismatch Cell :=
  let values := first :: rest
  let ofNumbers (f : List Float → Float) : Except Mismatch Cell :=
    (numbers s.name values).map fun xs => Cell.finite (f xs)
  match s with
  | count => .ok (some (.number (Number.ofNat values.length)))
  | maximum => (extreme s.name .gt first rest).map some
  | minimum => (extreme s.name .lt first rest).map some
  | sum => ofNumbers total
  | mean => ofNumbers average
  | median => ofNumbers middle
  | variance => ofNumbers spread
  | stdDev => ofNumbers fun xs => (spread xs).sqrt

def reduce (s : Summary) (cells : List Cell) : Except Mismatch Cell :=
  match cells.filterMap id with
  | [] => .ok none
  | first :: rest => s.reduceValues first rest

end Summary

end Tableflow
