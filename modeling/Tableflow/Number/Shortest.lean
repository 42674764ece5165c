import Tableflow.Number.Binary

/-!
The shortest decimal for a binary number: of all decimals that round to the number, those with the
fewest digits, and of these the nearest.
-/

namespace Tableflow.Number

/-- The value `digits · 10^exponent`. -/
structure Numeral where
  digits : Nat
  exponent : Int
  deriving DecidableEq, Repr

inductive Tie where
  | up | even
  deriving DecidableEq, Repr

def Numeral.strip : Nat → Numeral → Numeral
  | 0, n => n
  | fuel + 1, n =>
    if n.digits % 10 = 0 then Numeral.strip fuel ⟨n.digits / 10, n.exponent + 1⟩ else n

/-- The greatest `e` with `10^e ≤ num / den`, for positive `num` and `den`. -/
def floorLog10 (num den : Nat) : Int :=
  let reaches (e : Int) : Bool := den * tenTo e.toNat ≤ num * tenTo (-e).toNat
  let guess := floorLog2 num den * 30103 / 100000
  if reaches (guess + 1) then guess + 1 else if reaches guess then guess else guess - 1

/-- The reals that round to `m · 2^q`, in units of a quarter of `2^q`: from `4m - below` to
`4m + 2`, ends included if `m` is even. Below a power of two the numbers lie twice as close. -/
def gapBelow (m : Nat) (q : Int) : Nat := if m = hiddenBit ∧ -1074 < q then 1 else 2

/-- The nearer of the two neighbours of `m · 2^q` on the grid `10^k` that round to it, if any does. -/
def onGrid? (tie : Tie) (m : Nat) (q k : Int) : Option Nat :=
  let grid := twoTo (2 - q).toNat * tenTo k.toNat
  let unit := twoTo (q - 2).toNat * tenTo (-k).toNat
  let low := (4 * m - gapBelow m q) * unit
  let high := (4 * m + 2) * unit
  let rounds (d : Nat) : Bool :=
    if m % 2 = 0 then low ≤ d * grid && d * grid ≤ high else low < d * grid && d * grid < high
  let floor := 4 * m * unit / grid
  match rounds floor, rounds (floor + 1) with
  | true, true =>
    let number := 2 * (4 * m * unit)
    let middle := (2 * floor + 1) * grid
    if number < middle then some floor
    else if middle < number then some (floor + 1)
    else match tie with
      | .up => some (floor + 1)
      | .even => if floor % 2 = 0 then some floor else some (floor + 1)
  | true, false => some floor
  | false, true => some (floor + 1)
  | false, false => none

def shortest (tie : Tie) (m : Nat) (q : Int) : Numeral :=
  let top := floorLog10 (m * twoTo q.toNat) (twoTo (-q).toNat)
  -- seventeen digits always suffice
  let found := (List.range 17).findSome? fun (n : Nat) =>
    (onGrid? tie m q (top - n)).map fun d => (⟨d, top - n⟩ : Numeral)
  (found.getD ⟨0, 0⟩).strip 17

end Tableflow.Number
