import Tableflow.Calendar.Datetime
import Tableflow.Number.Text

/-!
Cells of a table: missing, or a value of one of four kinds.
-/

namespace Tableflow

inductive Kind where
  | logical | number | text | datetime
  deriving DecidableEq, Repr

def Kind.name : Kind → String
  | logical => "logical"
  | number => "number"
  | text => "text"
  | datetime => "datetime"

inductive Value where
  | logical (b : Bool)
  | number (x : Float)
  | text (s : String)
  | datetime (d : Datetime)
  deriving BEq, Inhabited

namespace Value

def kind : Value → Kind
  | logical _ => .logical
  | number _ => .number
  | text _ => .text
  | datetime _ => .datetime

/-- All values are truthy but `false`, zero and the empty text. -/
def isTruthy : Value → Bool
  | logical b => b
  | number x => x != 0
  | text s => s != ""
  | datetime _ => true

def toText : Value → String
  | logical b => if b then "true" else "false"
  | number x => Number.toText x
  | text s => s
  | datetime d => d.toText

end Value

/-- A value, or nothing where it is missing. -/
abbrev Cell := Option Value

namespace Cell

/-- The value of a finite number; other numbers are missing. -/
def finite (x : Float) : Cell := if x.isFinite then some (.number x) else none

def kindName : Cell → String
  | none => "missing"
  | some v => v.kind.name

/-- Missing is not truthy. -/
def isTruthy : Cell → Bool
  | none => false
  | some v => v.isTruthy

/-- Text of a cell in delimited text: nothing where it is missing. -/
def toText : Cell → String
  | none => ""
  | some v => v.toText

end Cell

end Tableflow
