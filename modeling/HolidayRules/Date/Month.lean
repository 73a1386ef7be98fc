import HolidayRules.Date.Weekday

set_option autoImplicit false

/-!
# Months of a year

A `YearMonth` is a month that can be moved by any number of months. Its edges and its numbered
weekdays are dates, unless they leave the supported years.
-/
namespace HolidayRules

structure YearMonth where
  year : Int
  month : Nat
deriving DecidableEq, Repr

inductive MonthEdge where
  | first
  | last
deriving DecidableEq, Repr

namespace YearMonth

def index (m : YearMonth) : Int := m.year * 12 + (m.month - 1)

def ofIndex (i : Int) : YearMonth := ⟨i / 12, (i % 12).toNat + 1⟩

def plus (m : YearMonth) (months : Int) : YearMonth := ofIndex (m.index + months)

def first? (m : YearMonth) : Option Date := Ymd.date? ⟨m.year, m.month, 1⟩

def last? (m : YearMonth) : Option Date := (m.plus 1).first?.bind (·.daysLater? (-1))

/-- The day of the month by its number; a number past the end of the month runs into the next. -/
def day? (m : YearMonth) (day : Nat) : Option Date := m.first?.bind (·.daysLater? (day - 1))

def edge? (m : YearMonth) : MonthEdge → Option Date
  | .first => m.first?
  | .last => m.last?

/-- The `n`-th weekday counted from the first of the month, or the last one if `n` is negative. -/
def weekday? (m : YearMonth) (n : Int) (w : Weekday) : Option Date :=
  if n < 0 then m.last?.bind fun d => d.daysLater? (-(w.daysUntil d.weekday))
  else m.first?.bind fun d => d.daysLater? (d.weekday.daysUntil w + (n - 1) * 7)

end YearMonth

namespace Date

def yearMonth (d : Date) : YearMonth := ⟨d.year, d.month⟩

/-- The same day of the month, `months` later; a day that month lacks runs into the next. -/
def monthsLater? (d : Date) (months : Int) : Option Date := (d.yearMonth.plus months).day? d.day

end Date
end HolidayRules
