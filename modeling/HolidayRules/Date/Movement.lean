import HolidayRules.Date.Weekday

set_option autoImplicit false

/-!
# Moving to a weekday and counting working days

Working days are the days from Monday to Friday.
-/
namespace HolidayRules

inductive Movement where
  | thisOrNext
  | next
  | previous
deriving DecidableEq, Repr

def wholeWeekIfZero (days : Nat) : Nat := if days = 0 then 7 else days

def Movement.distance (movement : Movement) (start goal : Weekday) : Int :=
  match movement with
  | thisOrNext => start.daysUntil goal
  | next => wholeWeekIfZero (start.daysUntil goal)
  | previous => -(wholeWeekIfZero (goal.daysUntil start))

/-- A positive number of working days as whole weeks of five, and one to five days left to count one
by one. -/
def splitWorkingWeeks (total : Nat) : Nat × Nat :=
  if total % 5 = 0 then (total / 5 - 1, 5) else (total / 5, total % 5)

namespace Date

def toWeekday? (d : Date) (movement : Movement) (w : Weekday) : Option Date :=
  d.daysLater? (movement.distance d.weekday w)

/-- The first working day after a date in steps of `step` days, each of which has to stay in the
supported years. A weekend is at most two days long. -/
def workingDayAfter? (step : Int) (d : Date) : Option Date :=
  (d.daysLater? step).bind fun first =>
    if !first.weekday.isWeekend then some first
    else (first.daysLater? step).bind fun second =>
      if !second.weekday.isWeekend then some second else second.daysLater? step

def workingDaysAfter? (step : Int) : Nat → Date → Option Date
  | 0, d => some d
  | count + 1, d => (workingDayAfter? step d).bind (workingDaysAfter? step count)

def workingDaysLater? (d : Date) (count : Int) : Option Date :=
  if count = 0 then some d
  else
    let (weeks, days) := splitWorkingWeeks count.natAbs
    (workingDaysAfter? count.sign days d).bind fun e => e.daysLater? (weeks * 7 * count.sign)

end Date
end HolidayRules
