import HolidayRules.Date.Names

set_option autoImplicit false

/-!
# Guards

A guard writes a date with a few letters, each standing for a part of the date, and compares the
result with a list of values.
-/
namespace HolidayRules

inductive DateLetter where
  | dayPadded
  | day
  | weekdayShort
  | weekday
  | weekdayFromMonday
  | weekdayFromSunday
  | monthPadded
  | month
  | monthShort
  | monthName
  | leap
  | year
deriving DecidableEq, Repr

namespace DateLetter

def all : List DateLetter :=
  [dayPadded, day, weekdayShort, weekday, weekdayFromMonday, weekdayFromSunday, monthPadded, month,
    monthShort, monthName, leap, year]

def char : DateLetter → Char
  | dayPadded => 'd'
  | day => 'j'
  | weekdayShort => 'D'
  | weekday => 'l'
  | weekdayFromMonday => 'N'
  | weekdayFromSunday => 'w'
  | monthPadded => 'm'
  | month => 'n'
  | monthShort => 'M'
  | monthName => 'F'
  | leap => 'L'
  | year => 'Y'

def ofChar? (c : Char) : Option DateLetter := all.find? fun letter => letter.char = c

/-- The part of a date that a letter stands for. The first counts Monday as 1, the second Sunday as
0. -/
def render (d : Date) : DateLetter → Text
  | dayPadded => Decimal.paddedNatural 2 d.day
  | day => Decimal.natural d.day
  | weekdayShort => abbreviation d.weekday.name
  | weekday => d.weekday.name
  | weekdayFromMonday => Decimal.natural (d.weekday.index + 1)
  | weekdayFromSunday => Decimal.natural ((d.weekday.index + 1) % 7)
  | monthPadded => Decimal.paddedNatural 2 d.month
  | month => Decimal.natural d.month
  | monthShort => abbreviation (HolidayRules.monthName d.month)
  | monthName => HolidayRules.monthName d.month
  | leap => if isLeap d.year then ['1'] else ['0']
  | year => Decimal.padded 4 d.year

end DateLetter

def Date.render (d : Date) (letters : List DateLetter) : Text := letters.flatMap (DateLetter.render d)

/-- Holds if one of the values is the written date, or none of them if it is negated. -/
structure Guard where
  letters : List DateLetter
  negated : Bool
  values : List Text
deriving DecidableEq, Repr

def Guard.holds (g : Guard) (d : Date) : Bool :=
  (g.values.any fun value => value.sameIgnoringCase (d.render g.letters)) != g.negated

end HolidayRules
