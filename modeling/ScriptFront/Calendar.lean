/-!
# The calendar

Which days there are. The calendar reaches back to the year zero with the rules of today.
-/

namespace ScriptFront.Calendar

/-- Is the year one with a twenty-ninth of February? -/
def isLeap (year : Nat) : Bool :=
  year % 4 = 0 && (year % 100 ≠ 0 || year % 400 = 0)

/-- The number of days of a month. -/
def daysIn (year month : Nat) : Nat :=
  if month = 2 then (if isLeap year then 29 else 28)
  else if month = 4 || month = 6 || month = 9 || month = 11 then 30
  else 31

/-- Is this **a day of the calendar**? -/
def isDay (year month day : Nat) : Bool :=
  1 ≤ month && month ≤ 12 && 1 ≤ day && day ≤ daysIn year month

end ScriptFront.Calendar
