import Tableflow.Cell.Basic
import Tableflow.Calendar.Reading

/-!
Conversions of cells to numbers and to datetimes. What has no sensible result is missing.
-/

namespace Tableflow

def Number.ofText (s : String) : Cell :=
  if Number.Pattern.number.accepts s.toList then
    (Number.read? (Text.trimChars s.toList)).bind Cell.finite
  else none

/-- An integer held to the range of 64 bits. -/
def Number.saturate (n : Int) : Int := max (-9223372036854775808) (min n 9223372036854775807)

namespace Cell

/-- Logical values count as 0 and 1, datetimes as milliseconds since 1970-01-01. -/
def toNumber : Cell → Cell
  | none => none
  | some (.number x) => finite x
  | some (.logical b) => some (.number (if b then 1 else 0))
  | some (.text s) => Number.ofText s
  | some (.datetime d) => finite (Number.ofInt d.toMillis)

/-- Numbers count as milliseconds since 1970-01-01, their fraction cut off. -/
def toDatetime : Cell → Cell
  | none => none
  | some (.logical _) => none
  | some (.datetime d) => some (.datetime d)
  | some (.number x) =>
    ((Number.truncate? x).bind fun millis => Datetime.ofMillis? (Number.saturate millis)).map
      Value.datetime
  | some (.text s) => (Datetime.ofText? s).map Value.datetime

end Cell

end Tableflow
