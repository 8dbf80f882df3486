/-
Purpose: The lengths of years and months.
Main exports: Calendar.isLeap, Calendar.daysOf, Calendar.isDate
-/

namespace PackageLayers.Calendar

/-!
Dates are those of the Gregorian calendar, which is also used for years before
it was introduced.
-/

/-- Whether a year has a leap day. -/
def isLeap (year : Int) : Bool :=
  year % 4 = 0 && (year % 100 ≠ 0 || year % 400 = 0)

/-- The number of days of a month. -/
def daysOf (year : Int) (month : Nat) : Nat :=
  if month = 2 then if isLeap year then 29 else 28
  else if [4, 6, 9, 11].contains month then 30
  else 31

/-- Whether a year has a day. -/
def isDate (year : Int) (month day : Nat) : Bool :=
  1 ≤ month && month ≤ 12 && 1 ≤ day && day ≤ daysOf year month

example : isDate 1900 2 29 = false := by decide
example : isDate (-4) 2 29 = true := by decide

end PackageLayers.Calendar
