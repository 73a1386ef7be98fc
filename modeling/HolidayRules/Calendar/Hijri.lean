import HolidayRules.Date.Number

set_option autoImplicit false

/-!
# The tabular Hijri calendar

Twelve months of 30 and 29 days in turn; in eleven years out of thirty the last month has 30 days
too. A day is found from its number by three divisions.
-/
namespace HolidayRules

structure HijriDate where
  year : Int
  month : Nat
  day : Nat
deriving DecidableEq, Repr

namespace HijriDate

def epoch : Int := 227015

/-- The number of a day. Day 30 of a month of 29 days is the first day of the next. -/
def number (d : HijriDate) : Int :=
  epoch - 1 + (d.year - 1) * 354 + (3 + 11 * d.year) / 30 + 29 * (d.month - 1) +
    (6 * d.month - 1) / 11 + d.day

def ofNumber (n : Int) : HijriDate :=
  let year := (30 * (n - epoch) + 10646) / 10631
  let before := n - number ⟨year, 1, 1⟩
  let month := ((11 * before + 330) / 325).toNat
  ⟨year, month, (n - number ⟨year, month, 1⟩ + 1).toNat⟩

def ofDate (d : Date) : HijriDate := ofNumber d.number

def date? (d : HijriDate) : Option Date := Date.ofNumber? d.number

/-- The first date of a Gregorian year on which a Hijri month and day falls. Three Hijri years from
the first of January on cover it. -/
def inYear? (year : Int) (month day : Nat) : Option Date :=
  if (1 ≤ month ∧ month ≤ 12) ∧ 1 ≤ day ∧ day ≤ 30 then do
    let start ← Ymd.date? ⟨year, 1, 1⟩
    let first := (ofDate start).year
    ([first, first + 1, first + 2].filterMap fun y => date? ⟨y, month, day⟩).find?
      fun d => d.year = year
  else none

end HijriDate
end HolidayRules
