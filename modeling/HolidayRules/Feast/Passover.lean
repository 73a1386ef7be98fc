import HolidayRules.Date.Number

set_option autoImplicit false

/-!
# Passover

The first day of Passover after Gauss: a linear formula gives the time of the moon in days after
March 13, and the weekdays on which the feast may not begin move it by a day or two. Times are whole
numbers of thousand-millionths of a day, the precision of the coefficients of the formula.
-/
namespace HolidayRules.Passover

def dayParts : Int := 1000000000

def lunarPlace (year : Int) : Int := (12 * year + 12).tmod 19

def leapPlace (year : Int) : Int := year.tmod 4

/-- The time of the moon, in parts of a day from the start of March 13. -/
def moonParts (year : Int) : Int :=
  20095587700 + 1554241800 * lunarPlace year + 250000000 * leapPlace year - 3177794 * year

def moonDay (year : Int) : Int := (moonParts year).tdiv dayParts

def moonTime (year : Int) : Int := moonParts year - moonDay year * dayParts

def moonWeekday (year : Int) : Int :=
  (moonDay year + 3 * year + 5 * leapPlace year + 1).tmod 7

/-- The days by which the feast begins after the day of the moon. -/
def delay (year : Int) : Int :=
  let weekday := moonWeekday year
  if weekday = 2 ∨ weekday = 4 ∨ weekday = 6 then 1
  else if weekday = 1 ∧ 6 < lunarPlace year ∧ 1367 * dayParts ≤ moonTime year * 2160 then 2
  else if weekday = 0 ∧ 11 < lunarPlace year ∧ 23269 * dayParts < moonTime year * 25920 then 1
  else 0

def date? (year : Int) : Option Date := do
  let start ← Ymd.date? ⟨year, 3, 13⟩
  start.daysLater? (moonDay year + delay year)

end HolidayRules.Passover
