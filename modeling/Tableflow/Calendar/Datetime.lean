import Tableflow.Calendar.Date

/-!
A date with a time of day in nanoseconds. A leap second is a second that takes two: its fraction goes
on to 2000000000 nanoseconds. Clocks put one at the end of a minute, but any second can be one.
Main conversions: milliseconds since 1970-01-01 and the written form `2020-01-02T03:04:05.678`.
-/

namespace Tableflow

structure Datetime where
  date : Date
  hour : Nat
  minute : Nat
  second : Nat
  nanosecond : Nat
  inDay : hour < 24 ∧ minute < 60 ∧ second < 60 ∧ nanosecond < 2000000000
  deriving DecidableEq

namespace Datetime

def of? (date : Date) (hour minute second nanosecond : Nat) : Option Datetime :=
  if inDay : hour < 24 ∧ minute < 60 ∧ second < 60 ∧ nanosecond < 2000000000 then
    some ⟨date, hour, minute, second, nanosecond, inDay⟩
  else none

def nanosPerSecond : Nat := 1000000000

/-- The datetime that a clock shows, on which the leap second is the 61st of a minute. -/
def ofClock? (date : Date) (hour minute second nanosecond : Nat) : Option Datetime :=
  if nanosecond < nanosPerSecond then
    if second = 60 then of? date hour minute 59 (nanosecond + nanosPerSecond)
    else of? date hour minute second nanosecond
  else none

def midnight (date : Date) : Datetime := ⟨date, 0, 0, 0, 0, by decide⟩

instance : Inhabited Datetime := ⟨midnight default⟩

def compare (a b : Datetime) : Ordering :=
  (Ord.compare a.date.year b.date.year).then <|
  (Ord.compare a.date.month b.date.month).then <|
  (Ord.compare a.date.day b.date.day).then <|
  (Ord.compare a.hour b.hour).then <|
  (Ord.compare a.minute b.minute).then <|
  (Ord.compare a.second b.second).then <|
  Ord.compare a.nanosecond b.nanosecond

/-- Whole milliseconds since 1970-01-01T00:00:00, rounded down. -/
def toMillis (d : Datetime) : Int :=
  ((d.date.dayNumber * 24 + d.hour) * 60 + d.minute) * 60000 +
    (d.second * 1000 + d.nanosecond / 1000000 : Nat)

def millisPerDay : Int := 86400000

def ofMillis? (millis : Int) : Option Datetime := do
  let date ← Date.ofDayNumber? (millis / millisPerDay)
  let rest := (millis % millisPerDay).toNat
  of? date (rest / 3600000) (rest / 60000 % 60) (rest / 1000 % 60) (rest % 1000 * 1000000)

/-- The same time of an hour, `minutes` later or earlier. -/
def shift? (d : Datetime) (minutes : Int) : Option Datetime := do
  let total := (d.date.dayNumber * 24 + d.hour) * 60 + d.minute + minutes
  let date ← Date.ofDayNumber? (total / 1440)
  let rest := (total % 1440).toNat
  of? date (rest / 60) (rest % 60) d.second d.nanosecond

/-! ### Written form -/

def padded (width n : Nat) : List Char :=
  let digits := Nat.toDigits 10 n
  List.replicate (width - digits.length) '0' ++ digits

/-- Years have four digits; outside of 0 to 9999 they have a sign and as many as they need. -/
def yearChars (year : Int) : List Char :=
  if year < 0 then '-' :: padded 4 year.natAbs
  else if year ≤ 9999 then padded 4 year.natAbs
  else '+' :: padded 4 year.natAbs

/-- A fraction of a second in the fewest of 0, 3, 6 or 9 places that are exact. -/
def fractionChars (nanosecond : Nat) : List Char :=
  if nanosecond = 0 then []
  else if nanosecond % 1000000 = 0 then '.' :: padded 3 (nanosecond / 1000000)
  else if nanosecond % 1000 = 0 then '.' :: padded 6 (nanosecond / 1000)
  else '.' :: padded 9 nanosecond

/-- In the second half of a leap second the next second is written. -/
def toChars (d : Datetime) : List Char :=
  yearChars d.date.year ++ '-' :: padded 2 d.date.month ++ '-' :: padded 2 d.date.day ++
    'T' :: padded 2 d.hour ++ ':' :: padded 2 d.minute ++
    ':' :: padded 2 (d.second + d.nanosecond / nanosPerSecond) ++
    fractionChars (d.nanosecond % nanosPerSecond)

def toText (d : Datetime) : String := String.ofList d.toChars

end Datetime

end Tableflow
