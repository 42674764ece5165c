import Tableflow.Number.Shortest
import Tableflow.Text.Blank
import Tableflow.Text.Pattern

/-!
Numbers as text. Writing is positional with the shortest digits. Reading takes decimal literals, which
are a sign, digits with a point, and a power of ten, and words such as `inf`; a pattern tells the texts
that look like numbers.
-/

namespace Tableflow.Number

def digitChars (n : Nat) : List Char := Nat.toDigits 10 n

/-- Digits with the point put `exponent` places from their right end; no point if there is no
fraction. -/
def positional (n : Numeral) : List Char :=
  let digits := digitChars n.digits
  match n.exponent with
  | .ofNat zeros => digits ++ List.replicate zeros '0'
  | .negSucc k =>
    let places := k + 1
    if places < digits.length then
      digits.take (digits.length - places) ++ '.' :: digits.drop (digits.length - places)
    else '0' :: '.' :: List.replicate (places - digits.length) '0' ++ digits

def signChars (negative : Bool) : List Char := if negative then ['-'] else []

/-- Text of a number: shortest digits, never an exponent, no point for an integer. Of two shortest
decimals equally near the upper one is written. -/
def toChars (x : Float) : List Char :=
  match decode? x with
  | none =>
    if x.isNaN then ['N', 'a', 'N']
    else signChars (x < 0) ++ ['i', 'n', 'f']
  | some d =>
    signChars d.negative ++
      if d.mantissa = 0 then ['0'] else positional (shortest .up d.mantissa d.exponent)

def toText (x : Float) : String := String.ofList (toChars x)

/-! ### Literals -/

/-- A decimal literal: `digits · 10^exponent`, negated if `negative`. -/
structure Literal where
  negative : Bool
  digits : Nat
  exponent : Int
  deriving DecidableEq, Repr

def digitValue (c : Char) : Nat := c.toNat - '0'.toNat

def readDigits (start : Nat) (cs : List Char) : Nat :=
  cs.foldl (fun n c => 10 * n + digitValue c) start

/-- An optional sign: whether it is a minus, and what follows. -/
def splitSign : List Char → Bool × List Char
  | '-' :: rest => (true, rest)
  | '+' :: rest => (false, rest)
  | rest => (false, rest)

def spanDigits (cs : List Char) : List Char × List Char :=
  (cs.takeWhile Char.isDigit, cs.dropWhile Char.isDigit)

/-- Digits and fraction digits of a literal, and what follows them. A point needs a digit on at
least one side. -/
def splitDigits? (cs : List Char) : Option (List Char × List Char × List Char) :=
  match spanDigits cs with
  | (whole, '.' :: rest) =>
    let (fraction, rest) := spanDigits rest
    if whole.isEmpty && fraction.isEmpty then none else some (whole, fraction, rest)
  | (whole, rest) => if whole.isEmpty then none else some (whole, [], rest)

/-- The exponent part of a literal, which runs to the end of the text. -/
def readExponent? : List Char → Option Int
  | [] => some 0
  | c :: rest =>
    if c = 'e' ∨ c = 'E' then
      let (negative, digits) := splitSign rest
      if digits.isEmpty || !digits.all Char.isDigit then none
      else some (withSign negative (readDigits 0 digits))
    else none

def Literal.read? (cs : List Char) : Option Literal :=
  let (negative, rest) := splitSign cs
  match splitDigits? rest with
  | none => none
  | some (whole, fraction, rest) =>
    match readExponent? rest with
    | none => none
    | some exponent =>
      some ⟨negative, readDigits 0 (whole ++ fraction), exponent - fraction.length⟩

/-- The number nearest to `digits · 10^exponent`. Values far beyond the range of the numbers are
recognised by the place of their first digit. -/
def nearestDecimal (negative : Bool) (digits : Nat) (exponent : Int) : Float :=
  let top := (digitChars digits).length + exponent
  if digits = 0 ∨ top < -330 then nearest negative 0 1
  else if 310 < top then infinity negative
  else nearest negative (digits * tenTo exponent.toNat) (tenTo (-exponent).toNat)

def Literal.toFloat (l : Literal) : Float := nearestDecimal l.negative l.digits l.exponent

/-- The words for the numbers that are not finite, in capital or small letters. -/
def word? (cs : List Char) : Option Float :=
  let (negative, rest) := splitSign cs
  let word := String.ofList (rest.map Char.toLower)
  if word = "inf" ∨ word = "infinity" then some (infinity negative)
  else if word = "nan" then some (Float.ofBits 0x7FF8000000000000)
  else none

def read? (cs : List Char) : Option Float := ((Literal.read? cs).map Literal.toFloat).or (word? cs)

/-! ### The pattern of numbers -/

/-- The zeros of the scripts that have digits. The other nine digits of a script follow its zero. -/
def scriptZeros : List Nat :=
  [0x30, 0x660, 0x6F0, 0x7C0, 0x966, 0x9E6, 0xA66, 0xAE6, 0xB66, 0xBE6, 0xC66, 0xCE6, 0xD66, 0xDE6,
    0xE50, 0xED0, 0xF20, 0x1040, 0x1090, 0x17E0, 0x1810, 0x1946, 0x19D0, 0x1A80, 0x1A90, 0x1B50,
    0x1BB0, 0x1C40, 0x1C50, 0xA620, 0xA8D0, 0xA900, 0xA9D0, 0xA9F0, 0xAA50, 0xABF0, 0xFF10, 0x104A0,
    0x10D30, 0x10D40, 0x11066, 0x110F0, 0x11136, 0x111D0, 0x112F0, 0x11450, 0x114D0, 0x11650,
    0x116C0, 0x116D0, 0x116DA, 0x11730, 0x118E0, 0x11950, 0x11BF0, 0x11C50, 0x11D50, 0x11DA0,
    0x11F50, 0x16A60, 0x16AC0, 0x16B50, 0x1CCF0, 0x1D7CE, 0x1D7D8, 0x1D7E2, 0x1D7EC, 0x1D7F6,
    0x1E140, 0x1E2F0, 0x1E4F0, 0x1E5F1, 0x1E950, 0x1FBF0]

def isScriptDigit (c : Char) : Bool :=
  scriptZeros.any fun first => first ≤ c.toNat && c.toNat < first + 10

namespace Pattern

open Text.Pattern

def blanks : Text.Pattern := many (one Text.isBlank)

def sign : Text.Pattern := optional (one fun c => c = '+' || c = '-')

def digits : Text.Pattern := repeated (one isScriptDigit)

def point : Text.Pattern := one fun c => c = '.'

def power : Text.Pattern := seq (one fun c => c = 'e' || c = 'E') (seq sign digits)

def decimal : Text.Pattern :=
  either (seq digits (optional (seq point (many (one isScriptDigit))))) (seq point digits)

/-- Texts that look like numbers, with the digits of any script: blanks, a sign, a decimal, a power of
ten and blanks. -/
def number : Text.Pattern := seq blanks (seq sign (seq decimal (seq (optional power) blanks)))

end Pattern

end Tableflow.Number
