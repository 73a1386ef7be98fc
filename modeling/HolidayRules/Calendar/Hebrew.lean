import HolidayRules.Date.Number

set_option autoImplicit false

/-!
# The Hebrew calendar

A year has twelve months, or thirteen when it is a leap year, and begins with Tishri. Its first day
follows the mean conjunction of the moon, delayed by up to two days. Months are numbered from one in
the order of the year; number 6 is Adar, and number 7 is Adar II, or again Adar in a common year.
-/
namespace HolidayRules.Hebrew

inductive Month where
  | tishri
  | marheshvan
  | kislev
  | tevet
  | shevat
  | adar
  | adarII
  | nisan
  | iyyar
  | sivan
  | tammuz
  | av
  | elul
deriving DecidableEq, Repr

def epoch : Int := -1373427

def isLeap (year : Int) : Bool := (7 * year + 1) % 19 < 7

def monthsBefore (year : Int) : Int := (235 * year - 234) / 19

/-- The mean conjunction before the year, in parts of which a day has 25920. -/
def conjunctionParts (year : Int) : Int := 12084 + 13753 * monthsBefore year

/-- The days from the epoch to the conjunction, one more where the year would begin on a Sunday, a
Wednesday or a Friday. -/
def conjunctionDay (year : Int) : Int :=
  let days := 29 * monthsBefore year + conjunctionParts year / 25920
  if 3 * (days + 1) % 7 < 3 then days + 1 else days

/-- The delay that keeps a common year at 353 to 355 days and a leap year at 383 to 385. -/
def lengthDelay (year : Int) : Int :=
  if conjunctionDay (year + 1) - conjunctionDay year = 356 then 2
  else if conjunctionDay year - conjunctionDay (year - 1) = 382 then 1
  else 0

def yearStart (year : Int) : Int := epoch + conjunctionDay year + lengthDelay year

def yearLength (year : Int) : Int := yearStart (year + 1) - yearStart year

def monthsToAdar (year : Int) : List Month :=
  [.tishri, .marheshvan, .kislev, .tevet, .shevat, .adar] ++
    if isLeap year then [.adarII] else []

def monthsFromNisan : List Month := [.nisan, .iyyar, .sivan, .tammuz, .av, .elul]

def months (year : Int) : List Month := monthsToAdar year ++ monthsFromNisan

/-- Marheshvan has its thirtieth day in the longest years only, and Kislev lacks it in the
shortest. -/
def isShort (year : Int) : Month → Bool
  | .iyyar | .tammuz | .elul | .tevet | .adarII => true
  | .adar => !isLeap year
  | .marheshvan => yearLength year != 355 && yearLength year != 385
  | .kislev => yearLength year == 353 || yearLength year == 383
  | .tishri | .shevat | .nisan | .sivan | .av => false

def monthLength (year : Int) (month : Month) : Nat := if isShort year month then 29 else 30

def daysOf (year : Int) : List Month → Nat
  | [] => 0
  | month :: rest => monthLength year month + daysOf year rest

/-- From Nisan on, all the months to Adar come first. -/
def daysBeforeMonth (year : Int) (month : Month) : Nat :=
  if month ∈ monthsFromNisan then
    daysOf year (monthsToAdar year ++ monthsFromNisan.takeWhile (· ≠ month))
  else daysOf year ((monthsToAdar year).takeWhile (· ≠ month))

def number (year : Int) (month : Month) (day : Nat) : Int :=
  yearStart year + daysBeforeMonth year month + day - 1

def monthOfNumber? (year : Int) : Nat → Option Month
  | 1 => some .tishri
  | 2 => some .marheshvan
  | 3 => some .kislev
  | 4 => some .tevet
  | 5 => some .shevat
  | 6 => some .adar
  | 7 => some (if isLeap year then .adarII else .adar)
  | 8 => some .nisan
  | 9 => some .iyyar
  | 10 => some .sivan
  | 11 => some .tammuz
  | 12 => some .av
  | 13 => some .elul
  | _ => none

def date? (year : Int) (month day : Nat) : Option Date := do
  let month ← monthOfNumber? year month
  if day = 0 ∨ monthLength year month < day then none
  else Date.ofNumber? (number year month day)

/-- The Hebrew years in which a Gregorian year ends and begins, in their order. -/
def yearsAround (year : Int) : List Int := [year + 3760, year + 3761]

def inYear? (year : Int) (month day : Nat) : Option Date :=
  ((yearsAround year).filterMap fun hebrewYear => date? hebrewYear month day).find?
    fun d => d.year = year

end HolidayRules.Hebrew
