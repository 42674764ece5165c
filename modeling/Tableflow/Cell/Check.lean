import Tableflow.Cell.Basic

/-!
Demands on the kinds of operands. A missing cell meets every demand.
-/

namespace Tableflow

/-- An operand of the wrong kind, and the operation that met it. -/
inductive Mismatch where
  | required (kind : Kind) (operation : String) (found : Kind)
  | unequal (operation : String) (left right : Kind)
  | unordered (operation : String) (left right : Kind)
  deriving DecidableEq, Repr

def Mismatch.message : Mismatch → String
  | required kind operation found =>
    s!"Require {kind.name} for {operation}, got {found.name}"
  | unequal operation left right =>
    s!"Require equal types for {operation}, got {left.name} and {right.name}"
  | unordered operation left right =>
    s!"Cannot order {left.name} and {right.name} for {operation}"

namespace Cell

def require (kind : Kind) (operation : String) : Cell → Except Mismatch Unit
  | none => .ok ()
  | some v => if v.kind = kind then .ok () else .error (.required kind operation v.kind)

def requireSameKind (operation : String) : Cell → Cell → Except Mismatch Unit
  | some a, some b => if a.kind = b.kind then .ok () else .error (.unequal operation a.kind b.kind)
  | _, _ => .ok ()

end Cell

end Tableflow
