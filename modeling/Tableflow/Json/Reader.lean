import Tableflow.Json.Basic
import Tableflow.Number.Text

/-!
JSON text read into a value. Nesting is limited to 127 levels, a field given twice keeps its first
place and its last value, and a number that is not an integer is computed in one step from at most
64 bits of its digits, so that its last bit may differ from correct rounding.
-/

namespace Tableflow.Json

open Number (digitValue spanDigits splitSign ofNat readDigits tenTo)

def maxDepth : Nat := 127

def skipBlanks (cs : List Char) : List Char :=
  cs.dropWhile fun c => c = ' ' || c = '\n' || c = '\t' || c = '\r'

def word? : List Char → List Char → Option (List Char)
  | [], cs => some cs
  | w :: ws, c :: cs => if w = c then word? ws cs else none
  | _ :: _, [] => none

/-! ### Strings -/

def hexValue? (c : Char) : Option Nat :=
  if c.isDigit then some (digitValue c)
  else if 'a' ≤ c ∧ c ≤ 'f' then some (c.toNat - 'a'.toNat + 10)
  else if 'A' ≤ c ∧ c ≤ 'F' then some (c.toNat - 'A'.toNat + 10)
  else none

def hex4? (a b c d : Char) : Option Nat := do
  return ((← hexValue? a) * 16 + (← hexValue? b)) * 256 + (← hexValue? c) * 16 + (← hexValue? d)

def isLeading (n : Nat) : Bool := 0xD800 ≤ n && n < 0xDC00

def isTrailing (n : Nat) : Bool := 0xDC00 ≤ n && n < 0xE000

def pairChar (lead trail : Nat) : Char := Char.ofNat (0x10000 + (lead - 0xD800) * 0x400 + (trail - 0xDC00))

def simpleEscape? (c : Char) : Option Char :=
  match c with
  | '"' => some '"'
  | '\\' => some '\\'
  | '/' => some '/'
  | 'b' => some '\x08'
  | 'f' => some '\x0C'
  | 'n' => some '\n'
  | 'r' => some '\r'
  | 't' => some '\t'
  | _ => none

/-- The characters up to the closing quote, and what follows it. -/
def stringRest? : List Char → Option (List Char × List Char)
  | [] => none
  | '"' :: rest => some ([], rest)
  | '\\' :: 'u' :: a :: b :: c :: d :: rest =>
    match hex4? a b c d with
    | none => none
    | some code =>
      if isTrailing code then none
      else if isLeading code then
        match rest with
        | '\\' :: 'u' :: e :: f :: g :: h :: rest =>
          match hex4? e f g h with
          | none => none
          | some trail =>
            if isTrailing trail then
              (stringRest? rest).map fun (cs, rest) => (pairChar code trail :: cs, rest)
            else none
        | _ => none
      else (stringRest? rest).map fun (cs, rest) => (Char.ofNat code :: cs, rest)
  | '\\' :: c :: rest =>
    match simpleEscape? c with
    | none => none
    | some plain => (stringRest? rest).map fun (cs, rest) => (plain :: cs, rest)
  | c :: rest =>
    if c.toNat < 0x20 ∨ c = '\\' then none
    else (stringRest? rest).map fun (cs, rest) => (c :: cs, rest)

/-! ### Numbers -/

/-- Integers that are not negative lie below this bound, `2^64`. -/
def wordLimit : Nat := 0x10000000000000000

/-- Negative integers are at most this far from zero, `2^63`. -/
def negativeLimit : Nat := 0x8000000000000000

/-- Collect digits into a significand of 64 bits: the significand and the digits that are left
over, starting with the first that does not fit. -/
def collect (significand : Nat) : List Char → Nat × List Char
  | [] => (significand, [])
  | c :: rest =>
    let next := significand * 10 + digitValue c
    if next < wordLimit then collect next rest else (significand, c :: rest)

/-- `significand · 10^exponent` by one multiplication or division with a rounded power of ten;
exponents below -308 take further divisions. Nothing if the result is too large. -/
def scale? (x : Float) (exponent : Int) : Option Float :=
  if -308 ≤ exponent ∧ exponent ≤ 308 then
    if 0 ≤ exponent then
      let scaled := x * ofNat (tenTo exponent.toNat)
      if scaled.isFinite then some scaled else none
    else some (x / ofNat (tenTo (-exponent).toNat))
  else if x == 0 then some x
  else if 0 ≤ exponent then none
  else scale? (x / ofNat (tenTo 308)) (exponent + 308)
termination_by (-exponent).toNat
decreasing_by omega

/-- Exponents from here on, `2^31`, are not computed with. -/
def exponentLimit : Nat := 0x80000000

/-- The exponent part of a number, if there is one: its sign, its digits and what follows. -/
def exponentPart? : List Char → Option (Option (Bool × List Char) × List Char)
  | c :: rest =>
    if c = 'e' ∨ c = 'E' then
      let (negative, rest) := splitSign rest
      let (digits, rest) := spanDigits rest
      if digits.isEmpty then none else some (some (negative, digits), rest)
    else some (none, c :: rest)
  | [] => some (none, [])

def negateIf (negative : Bool) (x : Float) : Float := if negative then -x else x

/-- A number written with a fraction or an exponent, or too large for an integer. -/
def float? (negative : Bool) (whole fraction : List Char) (exponent : Option (Bool × List Char)) :
    Option Json :=
  let (significand, surplus) := collect 0 whole
  let (significand, unused) := collect significand fraction
  let start : Int := surplus.length - (fraction.length - unused.length : Nat)
  let x := ofNat significand
  match exponent with
  | none => (scale? x start).map fun x => float (negateIf negative x)
  | some (down, digits) =>
    let size := readDigits 0 digits
    if size < exponentLimit then
      (scale? x (if down then start - size else start + size)).map fun x =>
        float (negateIf negative x)
    else if significand ≠ 0 ∧ ¬ down then none
    else some (float (negateIf negative 0))

/-- An integer if it fits into 64 bits, signed if negative; zero with a minus is no integer. -/
def numeral? (cs : List Char) : Option (Json × List Char) :=
  let (negative, cs) := match cs with
    | '-' :: rest => (true, rest)
    | rest => (false, rest)
  let (whole, rest) := spanDigits cs
  if whole.isEmpty || (whole.head? == some '0' && 1 < whole.length) then none
  else
    let fraction? := match rest with
      | '.' :: rest =>
        let (digits, rest) := spanDigits rest
        if digits.isEmpty then none else some (digits, rest)
      | rest => some ([], rest)
    match fraction? with
    | none => none
    | some (fraction, rest) =>
      match exponentPart? rest with
      | none => none
      | some (exponent, rest) =>
        let n := readDigits 0 whole
        if fraction.isEmpty && exponent.isNone && !negative && n < wordLimit then
          some (int n, rest)
        else if fraction.isEmpty && exponent.isNone && negative && 0 < n && n ≤ negativeLimit then
          some (int (-n), rest)
        else (float? negative whole fraction exponent).map fun json => (json, rest)

/-! ### Values -/

mutual

/-- A value at the start of the text after blanks. Every call uses up `fuel`; twice the length of
the text is enough. -/
def value? : (fuel depth : Nat) → List Char → Option (Json × List Char)
  | 0, _, _ => none
  | fuel + 1, depth, cs =>
    match skipBlanks cs with
    | [] => none
    | '"' :: rest => (stringRest? rest).map fun (cs, rest) => (string (String.ofList cs), rest)
    | '[' :: rest =>
      if depth = 0 then none
      else
        match skipBlanks rest with
        | ']' :: rest => some (array [], rest)
        | rest => (items? fuel (depth - 1) rest).map fun (items, rest) => (array items, rest)
    | '\x7b' :: rest =>
      if depth = 0 then none
      else
        match skipBlanks rest with
        | '\x7d' :: rest => some (object [], rest)
        | rest => (fields? fuel (depth - 1) [] rest).map fun (fields, rest) => (object fields, rest)
    | 't' :: rest => (word? ['r', 'u', 'e'] rest).map fun rest => (bool true, rest)
    | 'f' :: rest => (word? ['a', 'l', 's', 'e'] rest).map fun rest => (bool false, rest)
    | 'n' :: rest => (word? ['u', 'l', 'l'] rest).map fun rest => (null, rest)
    | rest => numeral? rest

def items? : (fuel depth : Nat) → List Char → Option (List Json × List Char)
  | 0, _, _ => none
  | fuel + 1, depth, cs =>
    match value? fuel depth cs with
    | none => none
    | some (item, rest) =>
      match skipBlanks rest with
      | ',' :: rest => (items? fuel depth rest).map fun (items, rest) => (item :: items, rest)
      | ']' :: rest => some ([item], rest)
      | _ => none

/-- The fields of an object up to its closing brace, put behind those already read. -/
def fields? : (fuel depth : Nat) → (read : List (String × Json)) → List Char →
    Option (List (String × Json) × List Char)
  | 0, _, _, _ => none
  | fuel + 1, depth, read, cs =>
    match skipBlanks cs with
    | '"' :: rest =>
      match stringRest? rest with
      | none => none
      | some (name, rest) =>
        match skipBlanks rest with
        | ':' :: rest =>
          match value? fuel depth rest with
          | none => none
          | some (value, rest) =>
            let read := OrderedMap.place (String.ofList name) value read
            match skipBlanks rest with
            | ',' :: rest => fields? fuel depth read rest
            | '\x7d' :: rest => some (read, rest)
            | _ => none
        | _ => none
    | _ => none

end

/-- The value of a whole text, which nests at most `depth` arrays and objects. -/
def ofNestedText? (depth : Nat) (text : String) : Option Json :=
  let cs := text.toList
  match value? (2 * cs.length + 1) depth cs with
  | some (json, rest) => if (skipBlanks rest).isEmpty then some json else none
  | none => none

def ofText? (text : String) : Option Json := ofNestedText? maxDepth text

end Tableflow.Json
