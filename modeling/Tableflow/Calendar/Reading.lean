import Tableflow.Calendar.Datetime
import Tableflow.Number.Text

/-!
Datetimes read from text, in one of four written forms: an instant with its offset from universal
time, date and time divided by `T`, date and time divided by blanks, and a date alone.
-/

namespace Tableflow.Datetime

open Number (readDigits withSign spanDigits tenTo)
open Text (dropBlanks trimChars)

/-! ### Parts of the written forms, each with what follows it -/

def expect? (c : Char) : List Char → Option (List Char)
  | head :: rest => if head = c then some rest else none
  | [] => none

def exactly? (count : Nat) (cs : List Char) : Option (Nat × List Char) :=
  let digits := cs.take count
  if digits.length = count && digits.all Char.isDigit then some (readDigits 0 digits, cs.drop count)
  else none

/-- One digit or more, of which at most `most` are taken. -/
def upTo? (most : Nat) (cs : List Char) : Option (Nat × List Char) :=
  let digits := (cs.takeWhile Char.isDigit).take most
  if digits.isEmpty then none else some (readDigits 0 digits, cs.drop digits.length)

/-- A field of one or two digits after any blanks. -/
def field? (cs : List Char) : Option (Nat × List Char) := upTo? 2 (dropBlanks cs)

/-- A year after any blanks: up to four digits, or a sign and any number of them. -/
def year? (cs : List Char) : Option (Int × List Char) :=
  match dropBlanks cs with
  | '-' :: rest => (upTo? rest.length rest).map fun (n, rest) => (-(n : Int), rest)
  | '+' :: rest => (upTo? rest.length rest).map fun (n, rest) => ((n : Int), rest)
  | rest => (upTo? 4 rest).map fun (n, rest) => ((n : Int), rest)

/-- An optional fraction of a second in nanoseconds; digits after the ninth do not count. -/
def fraction? : List Char → Option (Nat × List Char)
  | '.' :: rest =>
    let (digits, rest) := spanDigits rest
    if digits.isEmpty then none
    else
      let kept := digits.take 9
      some (readDigits 0 kept * tenTo (9 - kept.length), rest)
  | rest => some (0, rest)

/-- An offset in minutes, which ends the text: `Z`, or a sign, hours and minutes. -/
def offset? : List Char → Option Int
  | ['Z'] => some 0
  | ['z'] => some 0
  | sign :: rest => do
    let negative ←
      if sign = '+' then some false else if sign = '-' ∨ sign = '\u2212' then some true else none
    let (hours, rest) ← exactly? 2 rest
    let (minutes, rest) ← expect? ':' rest >>= exactly? 2
    if minutes < 60 && hours < 24 && rest.isEmpty then some (withSign negative (60 * hours + minutes))
    else none
  | [] => none

/-! ### The four forms -/

/-- An instant such as `2020-01-02T03:04:05.6+01:00`, in universal time. -/
def instant? (cs : List Char) : Option Datetime := do
  let (year, cs) ← exactly? 4 cs
  let (month, cs) ← expect? '-' cs >>= exactly? 2
  let (day, cs) ← expect? '-' cs >>= exactly? 2
  let (hour, cs) ← match cs with
    | c :: rest => if c = 'T' ∨ c = 't' ∨ c = ' ' then exactly? 2 rest else none
    | [] => none
  let (minute, cs) ← expect? ':' cs >>= exactly? 2
  let (second, cs) ← expect? ':' cs >>= exactly? 2
  let (nanosecond, cs) ← fraction? cs
  let offset ← offset? cs
  let date ← Date.of? year month day
  let here ← ofClock? date hour minute second nanosecond
  here.shift? (-offset)

def date? (cs : List Char) : Option (Date × List Char) := do
  let (year, cs) ← year? cs
  let (month, cs) ← expect? '-' cs >>= field?
  let (day, cs) ← expect? '-' cs >>= field?
  let date ← Date.of? year month day
  return (date, cs)

def timeOn? (date : Date) (cs : List Char) : Option Datetime := do
  let (hour, cs) ← field? cs
  let (minute, cs) ← expect? ':' cs >>= field?
  let (second, cs) ← expect? ':' cs >>= field?
  let (nanosecond, cs) ← fraction? cs
  if cs.isEmpty then ofClock? date hour minute second nanosecond else none

def joined? (cs : List Char) : Option Datetime := do
  let (date, cs) ← date? cs
  expect? 'T' cs >>= timeOn? date

def spaced? (cs : List Char) : Option Datetime := do
  let (date, cs) ← date? cs
  timeOn? date (dropBlanks cs)

def dateOnly? (cs : List Char) : Option Datetime := do
  let (date, cs) ← date? cs
  if cs.isEmpty then some (midnight date) else none

/-- The first of the four forms that the text, without blanks at its ends, has. -/
def ofText? (s : String) : Option Datetime :=
  let cs := trimChars s.toList
  (instant? cs).or <| (joined? cs).or <| (spaced? cs).or <| dateOnly? cs

end Tableflow.Datetime
