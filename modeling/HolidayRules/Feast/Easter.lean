import HolidayRules.Date.Weekday

set_option autoImplicit false

/-!
# Easter

The paschal full moon is found from the golden number of the year, and Easter is the Sunday after
it. The western rite reckons in the Gregorian calendar with its solar and lunar corrections, the
orthodox rite in the Julian calendar; both dates are given in the Gregorian one.
-/
namespace HolidayRules

inductive Rite where
  | western
  | orthodox
deriving DecidableEq, Repr

namespace Easter

/-- The place of the year in the nineteen years of the moon, counted from one. Division goes
towards zero, so years before 0 do not continue the cycle. -/
def goldenNumber (year : Int) : Int := year.tmod 19 + 1

def solarCorrection (year : Int) : Int :=
  (year - 1600).tdiv 100 - (year - 1600).tdiv 400

def lunarCorrection (year : Int) : Int := ((year - 1400).tdiv 100 * 8).tdiv 25

/-- Where the Sundays of the year stand, from 0 to 6. -/
def sundayShift (rite : Rite) (year : Int) : Int :=
  match rite with
  | .western => (year + year.tdiv 4 - year.tdiv 100 + year.tdiv 400) % 7
  | .orthodox => (year + year.tdiv 4 + 5) % 7

/-- The days from March 21 to the full moon, before it is brought forward. -/
def meanFullMoon (rite : Rite) (year : Int) : Int :=
  match rite with
  | .western => (3 - 11 * goldenNumber year + solarCorrection year - lunarCorrection year) % 30
  | .orthodox => (3 - 11 * goldenNumber year - 7) % 30

/-- A full moon on day 29, or on day 28 late in the lunar cycle, counts for the day before. -/
def fullMoon (rite : Rite) (year : Int) : Int :=
  let moon := meanFullMoon rite year
  if moon = 29 ∨ moon = 28 ∧ 11 < goldenNumber year then moon - 1 else moon

def daysAfterEquinox (rite : Rite) (year : Int) : Int :=
  let moon := fullMoon rite year
  moon + (4 - moon - sundayShift rite year) % 7 + 1

/-- March 21 in the calendar of the rite; the Julian calendar is taken thirteen days behind. -/
def equinox (rite : Rite) (year : Int) : Ymd :=
  match rite with
  | .western => ⟨year, 3, 21⟩
  | .orthodox => ⟨year, 4, 3⟩

/-- Easter Sunday. A day that is no Sunday is moved back to the Sunday before it, which absorbs the
centuries in which the two calendars are not thirteen days apart. -/
def date? (rite : Rite) (year : Int) : Option Date := do
  let start ← (equinox rite year).date?
  let day ← start.daysLater? (daysAfterEquinox rite year)
  day.daysLater? (-(Weekday.sunday.daysUntil day.weekday))

end Easter
end HolidayRules
