import TreePlan.Text.Numeral

/-!
Points in time as the records of a trace show them: the date and the time of day to the millisecond, at
the meridian of Greenwich.
-/

namespace TreePlan

/-- Milliseconds since 1970 began. -/
structure Moment where
  milliseconds : Nat
deriving DecidableEq, Repr

structure Day where
  year : Nat
  month : Nat
  day : Nat
deriving DecidableEq, Repr

namespace Day

/-- Days from the first of March of the year 0 to the first of January 1970. -/
def epoch : Nat := 719468

/-- The date of a day after the first of March of the year 0. Years begin in March here, so that a leap
day ends one, and run in cycles of 400. -/
def ofMarch (days : Nat) : Day :=
  let inCycle := days % 146097
  let year := (inCycle - inCycle / 1460 + inCycle / 36524 - inCycle / 146096) / 365
  let inYear := inCycle - (365 * year + year / 4 - year / 100)
  let month := (5 * inYear + 2) / 153
  let year := year + days / 146097 * 400
  { year := if month < 10 then year else year + 1
    month := if month < 10 then month + 3 else month - 9
    day := inYear - (153 * month + 2) / 5 + 1 }

example : ofMarch epoch = ⟨1970, 1, 1⟩ := by decide

-- a leap day in a year that 400 divides
example : ofMarch (epoch + 11016) = ⟨2000, 2, 29⟩ := by decide

def toText (d : Day) : Text :=
  Text.padded 10 4 d.year ++ "-" ++ Text.padded 10 2 d.month ++ "-" ++ Text.padded 10 2 d.day

end Day

namespace Moment

def day (m : Moment) : Day := .ofMarch (Day.epoch + m.milliseconds / 86400000)

def timeText (m : Moment) : Text :=
  let hours := m.milliseconds / 3600000 % 24
  let minutes := m.milliseconds / 60000 % 60
  let seconds := m.milliseconds / 1000 % 60
  Text.padded 10 2 hours ++ ":" ++ Text.padded 10 2 minutes ++ ":" ++ Text.padded 10 2 seconds
    ++ "." ++ Text.padded 10 3 (m.milliseconds % 1000)

def toText (m : Moment) : Text := m.day.toText ++ "T" ++ m.timeText ++ "Z"

end Moment

end TreePlan
