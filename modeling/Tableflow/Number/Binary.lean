/-!
Binary64 numbers taken apart and put together exactly: a finite number is `±m · 2^q` with natural
`m`, and a fraction of naturals is rounded to the nearest number, halves to the even neighbour.
-/

namespace Tableflow.Number

/-- The number `mantissa · 2^exponent`, negated if `negative`. -/
structure Dyadic where
  negative : Bool
  mantissa : Nat
  exponent : Int
  deriving DecidableEq, Repr

def twoTo (n : Nat) : Nat := Nat.pow 2 n

def tenTo (n : Nat) : Nat := Nat.pow 10 n

/-- The leading bit of a full mantissa, `2^52`, which is not stored. -/
def hiddenBit : Nat := 0x10000000000000

/-- The weight of the sign in a bit pattern, `2^63`. -/
def signWeight : Nat := 0x8000000000000000

/-- The parts of a finite number; nothing for infinities and for not-a-number. -/
def decode? (x : Float) : Option Dyadic :=
  let bits : Nat := x.toBits.toNat
  let fraction : Nat := bits % hiddenBit
  let biased : Nat := bits / hiddenBit % 2048
  let negative := decide (signWeight ≤ bits)
  if biased = 2047 then none
  else if biased = 0 then some ⟨negative, fraction, -1074⟩
  else some ⟨negative, fraction + hiddenBit, (biased : Int) - 1075⟩

/-- The integer nearest to `num / den`, a half going to the even neighbour. -/
def roundHalfEven (num den : Nat) : Nat :=
  let quotient := num / den
  let twice := 2 * (num % den)
  if den < twice ∨ (twice = den ∧ quotient % 2 = 1) then quotient + 1 else quotient

/-- The greatest `e` with `2^e ≤ num / den`, for positive `num` and `den`. -/
def floorLog2 (num den : Nat) : Int :=
  let guess := (num.log2 : Int) - den.log2
  if den * twoTo guess.toNat ≤ num * twoTo (-guess).toNat then guess else guess - 1

def signBit (negative : Bool) : Nat := if negative then signWeight else 0

def infinityBits : Nat := 2047 * hiddenBit

/-- The number nearest to `num / den`, negated if `negative`; a half goes to the even neighbour and
what is too large becomes infinite. -/
def nearest (negative : Bool) (num den : Nat) : Float :=
  if num = 0 then Float.ofBits (signBit negative).toUInt64
  else
    let q := max (floorLog2 num den - 52) (-1074)
    let m := roundHalfEven (num * twoTo (-q).toNat) (den * twoTo q.toNat)
    Float.ofBits (signBit negative + min ((q + 1074).toNat * hiddenBit + m) infinityBits).toUInt64

def Dyadic.toFloat (d : Dyadic) : Float :=
  nearest d.negative (d.mantissa * twoTo d.exponent.toNat) (twoTo (-d.exponent).toNat)

def ofNat (n : Nat) : Float := nearest false n 1

def ofInt (n : Int) : Float := nearest (decide (n < 0)) n.natAbs 1

def notANumber : Float := Float.ofBits 0x7ff8000000000000

def infinity (negative : Bool) : Float := Float.ofBits (signBit negative + infinityBits).toUInt64

def withSign (negative : Bool) (n : Nat) : Int := if negative then -(n : Int) else n

def truncate? (x : Float) : Option Int :=
  (decode? x).map fun d =>
    withSign d.negative (d.mantissa * twoTo d.exponent.toNat / twoTo (-d.exponent).toNat)

def toInt? (x : Float) : Option Int :=
  match decode? x with
  | none => none
  | some d =>
    if d.mantissa * twoTo d.exponent.toNat % twoTo (-d.exponent).toNat = 0 then
      some (withSign d.negative (d.mantissa * twoTo d.exponent.toNat / twoTo (-d.exponent).toNat))
    else none

/-- The integer nearest to a number that is not negative, a half going up. -/
def roundHalfUp (x : Float) : Float :=
  match decode? x with
  | none => x
  | some d =>
    if 0 ≤ d.exponent then x
    else
      let den := twoTo (-d.exponent).toNat
      ofNat ((2 * d.mantissa + den) / (2 * den))

/-- What is left of `x` after taking away a whole multiple of `y`; it has the sign of `x` and is
exact. -/
def remainder (x y : Float) : Float :=
  match decode? x, decode? y with
  | some a, some b =>
    if b.mantissa = 0 then notANumber
    else
      let q := min a.exponent b.exponent
      let left := a.mantissa * twoTo (a.exponent - q).toNat
      let right := b.mantissa * twoTo (b.exponent - q).toNat
      Dyadic.toFloat ⟨a.negative, left % right, q⟩
  | some _, none => if y.isNaN then notANumber else x
  | none, _ => notANumber

/-- Place of a number in the order of all bit patterns: negative ones backwards, then zero of
either sign, then positive ones. -/
def rank (x : Float) : Int :=
  let bits : Nat := x.toBits.toNat
  if signWeight ≤ bits then (signWeight : Int) - 1 - bits else bits

end Tableflow.Number
