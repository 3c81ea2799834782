import DocCompiler.Data.Datum

/-!
The time of a day in universal time, as it is noted in files.
-/

namespace DocCompiler

/-- The day that lies a number of days after the first of March of the year zero. Years are counted
from March on, so that the day a leap year adds is the last one. -/
def Date.afterMarchZero (days : Nat) : Date :=
  let era := days / 146097
  let inEra := days % 146097
  let yearOfEra := (inEra - inEra / 1460 + inEra / 36524 - inEra / 146096) / 365
  let dayOfYear := inEra - (365 * yearOfEra + yearOfEra / 4 - yearOfEra / 100)
  let monthFromMarch := (5 * dayOfYear + 2) / 153
  let month := if monthFromMarch < 10 then monthFromMarch + 3 else monthFromMarch - 9
  { year := 400 * era + yearOfEra + (if month ≤ 2 then 1 else 0)
    month
    day := dayOfYear - (153 * monthFromMarch + 2) / 5 + 1 }

/-- The day that lies a number of days after the first of January 1970. -/
def Date.ofDays (days : Nat) : Date :=
  .afterMarchZero (days + 719468)

namespace CommandLine

/-- A time in seconds and microseconds since the start of 1970, with day and clock. A fraction of zero
is left out. -/
def timeText (seconds microseconds : Nat) : String :=
  let clock := padded 2 (seconds / 3600 % 24) ++ ":" ++ padded 2 (seconds / 60 % 60) ++ ":" ++
    padded 2 (seconds % 60)
  let fraction := if microseconds = 0 then "" else "." ++ padded 6 microseconds
  (Date.ofDays (seconds / 86400)).text ++ "T" ++ clock ++ fraction ++ "Z"

end CommandLine

end DocCompiler
