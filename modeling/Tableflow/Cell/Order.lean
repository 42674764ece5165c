import Tableflow.Cell.Basic

/-!
Three ways to compare cells: equality of values, order of values of one kind, and keys under which
rows are grouped and joined.
-/

namespace Tableflow

def Value.equal : Value → Value → Bool
  | .logical a, .logical b => a == b
  | .number a, .number b => a == b
  | .text a, .text b => a == b
  | .datetime a, .datetime b => a == b
  | _, _ => false

def Number.compare? (a b : Float) : Option Ordering :=
  if a < b then some .lt else if a == b then some .eq else if b < a then some .gt else none

/-- Order of two values of one kind: `false` before `true`, numbers by size, text by code points,
datetimes in time. -/
def Value.compare? : Value → Value → Option Ordering
  | .logical a, .logical b => some (Ord.compare a b)
  | .number a, .number b => Number.compare? a b
  | .text a, .text b => some (Ord.compare a b)
  | .datetime a, .datetime b => some (Datetime.compare a b)
  | _, _ => none

/-- Order of cells: missing comes first, and values without an order count as equal. -/
def Cell.compare : Cell → Cell → Ordering
  | none, none => .eq
  | none, some _ => .lt
  | some _, none => .gt
  | some a, some b => (a.compare? b).getD .eq

inductive Key where
  | missing
  | logical (b : Bool)
  | number (bits : UInt64)
  | text (s : String)
  | datetime (d : Datetime)
  deriving DecidableEq

def Cell.key : Cell → Key
  | none => .missing
  | some (.logical b) => .logical b
  -- the two zeros share a key
  | some (.number x) => .number (if x == 0 then (0 : Float) else x).toBits
  | some (.text s) => .text s
  | some (.datetime d) => .datetime d

end Tableflow
