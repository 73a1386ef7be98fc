import HolidayRules.Evaluation
import HolidayRules.Rule.Kinds
import HolidayRules.YearSet

set_option autoImplicit false

/-!
# Holiday rules

A rule gives a fixed day of the year, or a code for a movable one, together with the years and the
regions in which it holds. Empty texts set no bound.
-/
namespace HolidayRules

/-- A month or a day that is missing or zero is taken from the caller. -/
structure Rule where
  id : Nat := 0
  years : Text := []
  exceptedYears : Text := []
  month : Option Nat := none
  day : Option Nat := none
  code : Text := []
  region : Text := []
  kinds : Kinds := .official
deriving DecidableEq, Repr

namespace Rule

def onDay (r : Rule) (month day : Nat) : Rule := { r with month := some month, day := some day }

def regions (r : Rule) : List Text := Text.commaItems r.region

/-- A rule without regions is never selected. -/
def hasRegion (r : Rule) : Bool := !r.regions.isEmpty

def holdsIn (r : Rule) (year : Int) : Bool :=
  YearSet.holdsIn (YearSet.parse r.years) (YearSet.parse r.exceptedYears) year

def orDefault (own : Option Nat) (default : Nat) : Nat :=
  match own with
  | some 0 | none => default
  | some n => n

def start (r : Rule) (defaults : Ymd) : Ymd :=
  ⟨defaults.year, orDefault r.month defaults.month, orDefault r.day defaults.day⟩

/-- A rule without a code falls on its day, whether or not that exists. -/
def outcome (r : Rule) (registry : Registry) (defaults : Ymd) : Except ExtensionError Outcome :=
  if !r.holdsIn defaults.year then .ok .notApplicable
  else if (Text.trim r.code).isEmpty then .ok (.date (r.start defaults))
  else evaluate registry r.code (r.start defaults)

end Rule
end HolidayRules
