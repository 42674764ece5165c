import Tableflow.Json.Basic
import Tableflow.Number.Text

/-!
JSON text, on one line without blanks or spread over lines with an indent of two.
-/

namespace Tableflow.Json

open Number (decode? shortest positional digitChars signChars Numeral)

/-! ### Strings -/

def hexDigit (n : Nat) : Char := (Nat.digitChar n)

/-- Quotes, backslashes and control characters are escaped, nothing else. -/
def escape (c : Char) : List Char :=
  if c = '"' then ['\\', '"']
  else if c = '\\' then ['\\', '\\']
  else if c = '\n' then ['\\', 'n']
  else if c = '\r' then ['\\', 'r']
  else if c = '\t' then ['\\', 't']
  else if c.toNat = 0x08 then ['\\', 'b']
  else if c.toNat = 0x0C then ['\\', 'f']
  else if c.toNat < 0x20 then ['\\', 'u', '0', '0', hexDigit (c.toNat / 16), hexDigit (c.toNat % 16)]
  else [c]

def quote (s : String) : String := String.ofList ('"' :: s.toList.flatMap escape ++ ['"'])

/-! ### Numbers -/

/-- Powers of ten of the first digit for which a number is written without an exponent. -/
def isPositional (power : Int) : Bool := -5 ≤ power && power ≤ 15

/-- A number that is not an integer by type always shows a fraction or an exponent. Of two shortest
decimals equally near the even one is written. -/
def floatChars (x : Float) : List Char :=
  match decode? x with
  | none => ['n', 'u', 'l', 'l']
  | some d =>
    signChars d.negative ++
    if d.mantissa = 0 then ['0', '.', '0']
    else
      let numeral := shortest .even d.mantissa d.exponent
      let digits := digitChars numeral.digits
      let power := numeral.exponent + digits.length - 1
      if isPositional power then
        positional numeral ++ if 0 ≤ numeral.exponent then ['.', '0'] else []
      else
        let fraction := if digits.length = 1 then [] else '.' :: digits.drop 1
        digits.take 1 ++ fraction ++ 'e' :: (if power < 0 then '-' else '+') ::
          digitChars power.natAbs

def intChars (n : Int) : List Char := signChars (n < 0) ++ digitChars n.natAbs

/-! ### Values -/

mutual

def compact : Json → String
  | null => "null"
  | bool b => if b then "true" else "false"
  | int n => String.ofList (intChars n)
  | float x => String.ofList (floatChars x)
  | string s => quote s
  | array items => "[" ++ ",".intercalate (compactItems items) ++ "]"
  | object fields => "\x7b" ++ ",".intercalate (compactFields fields) ++ "\x7d"

def compactItems : List Json → List String
  | [] => []
  | item :: rest => compact item :: compactItems rest

def compactFields : List (String × Json) → List String
  | [] => []
  | (name, value) :: rest => (quote name ++ ":" ++ compact value) :: compactFields rest

end

/-- A new line at the given depth. -/
def lineAt (depth : Nat) : String := String.ofList ('\n' :: List.replicate (2 * depth) ' ')

/-- Parts between brackets, each on a line of its own. -/
def spread (depth : Nat) (left right : String) (parts : List String) : String :=
  if parts.isEmpty then left ++ right
  else
    left ++ lineAt (depth + 1) ++ ("," ++ lineAt (depth + 1)).intercalate parts ++ lineAt depth ++ right

mutual

def prettyAt (depth : Nat) : Json → String
  | null => "null"
  | bool b => if b then "true" else "false"
  | int n => String.ofList (intChars n)
  | float x => String.ofList (floatChars x)
  | string s => quote s
  | array items => spread depth "[" "]" (prettyItems (depth + 1) items)
  | object fields => spread depth "\x7b" "\x7d" (prettyFields (depth + 1) fields)

def prettyItems (depth : Nat) : List Json → List String
  | [] => []
  | item :: rest => prettyAt depth item :: prettyItems depth rest

def prettyFields (depth : Nat) : List (String × Json) → List String
  | [] => []
  | (name, value) :: rest => (quote name ++ ": " ++ prettyAt depth value) :: prettyFields depth rest

end

def pretty (json : Json) : String := prettyAt 0 json

end Tableflow.Json
