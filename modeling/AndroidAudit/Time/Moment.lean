/-!
# Moments

A moment is counted in seconds and nanoseconds from the start of 1970, and is written as a date and a
time of day in UTC.
-/

namespace AndroidAudit

/-- A day of the calendar. -/
structure Date where
  year : Nat
  /-- The month, from one. -/
  month : Nat
  /-- The day of the month, from one. -/
  day : Nat
  deriving DecidableEq, Repr

/-- The date of a day counted from the start of 1970. The years are taken to begin in March, so that
a leap day is the last of its year, and go in rounds of four hundred. -/
def Date.ofDay (n : Nat) : Date :=
  let fromMarch := n + 719468
  let round := fromMarch / 146097
  let inRound := fromMarch % 146097
  let year := (inRound - inRound / 1460 + inRound / 36524 - inRound / 146096) / 365
  let inYear := inRound - (365 * year + year / 4 - year / 100)
  let month := (5 * inYear + 2) / 153
  { year := 400 * round + year + (if month < 10 then 0 else 1)
    month := if month < 10 then month + 3 else month - 9
    day := inYear - (153 * month + 2) / 5 + 1 }

/-- A point in time. -/
structure Moment where
  /-- The seconds since the start of 1970. -/
  seconds : Nat
  /-- The nanoseconds since the second began. -/
  nanos : Nat
  deriving DecidableEq, Repr

namespace Moment

/-- A number with at least so many digits. -/
def padded (width n : Nat) : String :=
  let digits := toString n
  String.ofList (List.replicate (width - digits.length) '0') ++ digits

/-- The part of a second, in as few groups of three digits as give it exactly. -/
def fraction (nanos : Nat) : String :=
  if nanos = 0 then ""
  else if nanos % 1000000 = 0 then "." ++ padded 3 (nanos / 1000000)
  else if nanos % 1000 = 0 then "." ++ padded 6 (nanos / 1000)
  else "." ++ padded 9 nanos

/-- A moment as text. -/
def text (m : Moment) : String :=
  let date := Date.ofDay (m.seconds / 86400)
  let inDay := m.seconds % 86400
  padded 4 date.year ++ "-" ++ padded 2 date.month ++ "-" ++ padded 2 date.day ++ "T"
    ++ padded 2 (inDay / 3600) ++ ":" ++ padded 2 (inDay / 60 % 60) ++ ":" ++ padded 2 (inDay % 60)
    ++ fraction m.nanos ++ "+00:00"

end Moment

end AndroidAudit
