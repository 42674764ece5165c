import Tableflow.Number.Binary

/-!
Decimals of bounded size, `±mantissa · 10^(-scale)` with a 96-bit mantissa and at most 28 places,
in which columns of numbers are added and averaged. Conversion from a binary number keeps about
fifteen digits, and a number that does not fit has no decimal.
-/

namespace Tableflow.Number

structure Decimal where
  mantissa : Nat
  scale : Nat
  negative : Bool
  deriving DecidableEq, Repr

namespace Decimal

def maxScale : Nat := 28

/-- Mantissas lie below this bound, `2^96`. -/
def limit : Nat := 0x1000000000000000000000000

def zero : Decimal := ⟨0, 0, false⟩

/-! ### From binary numbers -/

/-- Trade `steps` factors of one half against factors of five in the mantissa `m` of `m · 10^e`,
dropping a bit where five times the mantissa would not fit. -/
def tradeHalves : (steps : Nat) → (m : Nat) → (e : Int) → Nat × Int
  | 0, m, e => (m, e)
  | steps + 1, m, e =>
    if m % 2 = 0 then tradeHalves steps (m / 2) (e + 1)
    else if m * 5 < limit then tradeHalves steps (m * 5) e
    else tradeHalves steps (m / 2) (e + 1)

/-- Trade `steps` factors of two against tenths. -/
def tradeDoubles : (steps : Nat) → (m : Nat) → (e : Int) → Option (Nat × Int)
  | 0, m, e => some (m, e)
  | steps + 1, m, e =>
    if 2 * m < limit then tradeDoubles steps (m * 2) (e - 1)
    else if steps + 1 < e * 2 then none
    else tradeDoubles steps (m / 5) e

/-- Multiply by ten `times` times, as long as the mantissa fits. -/
def tenfold : (times : Nat) → (m : Nat) → Option Nat
  | 0, m => some m
  | times + 1, m => if m * 10 < limit then tenfold times (m * 10) else none

/-- A tenth of `m`, a last digit of five or more counting up. -/
def tenth (m : Nat) : Nat := if 5 ≤ m % 10 then m / 10 + 1 else m / 10

/-- Drop places beyond the last one allowed; a mantissa that vanishes on the way is zero. -/
def dropExcess : (excess : Nat) → (m : Nat) → Nat × Nat
  | 0, m => (m, maxScale)
  | excess + 1, m => if m / 10 = 0 then (0, 0) else dropExcess excess (tenth m)

/-- Drop places until the mantissa has at most 52 bits. -/
def dropGuard : (scale : Nat) → (m : Nat) → Nat × Nat
  | 0, m => (m, 0)
  | scale + 1, m => if hiddenBit ≤ m then dropGuard scale (tenth m) else (m, scale + 1)

def dropZeros : (scale : Nat) → (m : Nat) → Nat × Nat
  | 0, m => (m, 0)
  | scale + 1, m => if m % 10 = 0 then dropZeros scale (m / 10) else (m, scale + 1)

def ofParts? (negative : Bool) (m : Nat) (e : Int) : Option Decimal := do
  let (m, e) := tradeHalves (-e).toNat m e
  let (m, e) ← tradeDoubles (if 0 < e then e.toNat else 0) m e
  let m ← tenfold e.toNat m
  let places := (-e).toNat
  let (m, scale) := if maxScale < places then dropExcess (places - maxScale) m else (m, places)
  let (m, scale) := dropGuard scale m
  let (m, scale) := dropZeros scale m
  return ⟨m, scale, negative⟩

def ofFloat? (x : Float) : Option Decimal :=
  match decode? x with
  | none => none
  | some d => if d.mantissa = 0 then some ⟨0, 0, d.negative⟩ else ofParts? d.negative d.mantissa d.exponent

/-! ### Sums and quotients -/

def signed (d : Decimal) (scale : Nat) : Int :=
  withSign d.negative (d.mantissa * tenTo (scale - d.scale))

/-- Give up `dropped` or more of the remaining places so that the rounded mantissa fits. -/
def settle (m : Nat) : (scale : Nat) → (dropped : Nat) → Option (Nat × Nat)
  | 0, dropped =>
    let rounded := roundHalfEven m (tenTo dropped)
    if rounded < limit then some (rounded, 0) else none
  | scale + 1, dropped =>
    let rounded := roundHalfEven m (tenTo dropped)
    if rounded < limit then some (rounded, scale + 1) else settle m scale (dropped + 1)

/-- The sum, with as many places as fit; nothing if even its whole part does not. -/
def add? (a b : Decimal) : Option Decimal :=
  if a.mantissa = 0 then some b
  else if b.mantissa = 0 then some a
  else
    let scale := max a.scale b.scale
    let total := a.signed scale + b.signed scale
    (settle total.natAbs scale 0).map fun (m, scale) => ⟨m, scale, decide (total < 0)⟩

/-- The most digits, up to nine and up to `room`, by which `q` can be lengthened. -/
def stride (room q : Nat) : Nat :=
  ((List.range (min 9 room + 1)).reverse.find? fun p => q * tenTo p < limit).getD 0

theorem stride_le (room q : Nat) : stride room q ≤ room := by
  unfold stride
  cases found : (List.range (min 9 room + 1)).reverse.find? fun p => q * tenTo p < limit with
  | none => simp
  | some p =>
    have member := List.mem_of_find?_eq_some found
    simp only [List.mem_reverse, List.mem_range] at member
    simp only [Option.getD_some]
    omega

/-- Continue a long division by `n` from quotient `q` and remainder `r` with `room` places left:
the quotient and the number of places used, rounded half to even at the end. -/
def longDivision (n room q r : Nat) : Nat × Nat :=
  if r = 0 then (q, 0)
  else
    let p := stride room q
    if positive : p = 0 then
      (if n < 2 * r ∨ (2 * r = n ∧ q % 2 = 1) then q + 1 else q, 0)
    else
      let next := q * tenTo p + r * tenTo p / n
      let rest := r * tenTo p % n
      if limit ≤ next then
        let last := next % 10
        let up := 5 < last ∨ (last = 5 ∧ (rest ≠ 0 ∨ next / 10 % 2 = 1))
        (if up then next / 10 + 1 else next / 10, p - 1)
      else
        let (quotient, used) := longDivision n (room - p) next rest
        (quotient, used + p)
termination_by room
decreasing_by
  have bound := stride_le room q
  omega

/-- Drop eight zeros at a time while the mantissa ends in 32 zero bits. -/
def dropEights (q scale : Nat) : Nat × Nat :=
  if q % 0x100000000 = 0 ∧ 8 ≤ scale ∧ q % 100000000 = 0 then dropEights (q / 100000000) (scale - 8)
  else (q, scale)
termination_by scale
decreasing_by omega

def dropSome (p : Nat) : Nat × Nat → Nat × Nat
  | (q, scale) => if p ≤ scale ∧ q % tenTo p = 0 then (q / tenTo p, scale - p) else (q, scale)

def divide (d : Decimal) (n : Nat) : Decimal :=
  if d.mantissa = 0 then zero
  else if d.mantissa % n = 0 then ⟨d.mantissa / n, d.scale, d.negative⟩
  else
    let (q, used) := longDivision n (maxScale - d.scale) (d.mantissa / n) (d.mantissa % n)
    let (q, scale) := dropSome 1 (dropSome 2 (dropSome 4 (dropEights q (d.scale + used))))
    ⟨q, scale, d.negative⟩

/-- The sum of a column from top to bottom, if every number and every partial sum has a decimal. -/
def sum? (xs : List Float) : Option Decimal :=
  xs.foldlM (fun total x => (ofFloat? x).bind total.add?) zero

/-! ### Back to binary numbers -/

/-- `base^n` times `product` by repeated squaring, each step rounded. -/
def squaring (product base : Float) (n : Nat) : Float :=
  let product := if n % 2 = 1 then product * base else product
  if n / 2 = 0 then product else squaring product (base * base) (n / 2)
termination_by n
decreasing_by omega

def negateIf (negative : Bool) (x : Float) : Float := if negative then -x else x

/-- The binary number of a decimal: whole part and fraction are converted apart and their sum is
rounded at the last decimal place. -/
def toFloat (d : Decimal) : Float :=
  if d.mantissa = 0 then 0
  else if d.scale = 0 then negateIf d.negative (ofNat d.mantissa)
  else
    let unit := tenTo d.scale
    let whole := ofNat (d.mantissa / unit)
    let fraction := ofNat (d.mantissa % unit) / ofNat unit
    if fraction == 0 then negateIf d.negative whole
    else
      let power := squaring 1 10 d.scale
      negateIf d.negative (roundHalfUp ((whole + fraction) * power) / power)

end Decimal

end Tableflow.Number
