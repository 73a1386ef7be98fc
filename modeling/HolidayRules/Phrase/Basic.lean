import HolidayRules.Date.Month
import HolidayRules.Date.Movement

set_option autoImplicit false

/-!
# Date phrases

A phrase such as `first monday of may` or `2018-04-01 +3 days` is a list of items. What may go wrong
in reading or applying one is a `PhraseError`.
-/
namespace HolidayRules

/-- The units of an offset; a `weekday` is a working day. -/
inductive OffsetUnit where
  | day
  | week
  | fortnight
  | month
  | year
  | weekday
deriving DecidableEq, Repr

namespace OffsetUnit

def all : List OffsetUnit := [day, week, fortnight, month, year, weekday]

def name : OffsetUnit → Text
  | day => "day".toList
  | week => "week".toList
  | fortnight => "fortnight".toList
  | month => "month".toList
  | year => "year".toList
  | weekday => "weekday".toList

def ofName? (t : Text) : Option OffsetUnit :=
  all.find? fun unit => t = unit.name || t = unit.name ++ ['s']

end OffsetUnit

inductive Item where
  /-- A year and a month, and the first of the month if there is no day. -/
  | date (year : Int) (month : Nat) (day : Option Nat)
  | month (month : Nat) (day : Option Nat)
  | offset (amount : Int) (unit : OffsetUnit)
  /-- Turns round the offsets before it. -/
  | ago
  | weekday (weekday : Weekday) (movement : Movement)
  | edge (edge : MonthEdge)
  /-- The `n`-th weekday of the month, or the last one if `n` is negative. -/
  | nth (n : Int) (weekday : Weekday)
deriving DecidableEq, Repr

abbrev Phrase := List Item

inductive PhraseError where
  | empty
  | unexpected (position : Nat) (found : Text)
  | missingUnit (position : Nat)
  | expectedOf (position : Nat)
  | missingBase
  | outOfRange
deriving DecidableEq, Repr

def PhraseError.message : PhraseError → Text
  | empty => "empty date expression".toList
  | unexpected position found =>
    "unexpected '".toList ++ found ++ "' at position ".toList ++ Decimal.natural position
  | missingUnit position =>
    "number at position ".toList ++ Decimal.natural position ++ " has no unit".toList
  | expectedOf position => "expected 'of' at position ".toList ++ Decimal.natural position
  | missingBase => "expression needs a base date but none was given".toList
  | outOfRange => "date out of range".toList

/-- Offsets and their sums are kept within 64 bits. -/
def inWord (n : Int) : Bool := -9223372036854775808 ≤ n && n ≤ 9223372036854775807

def leastWord : Int := -9223372036854775808

/-- Negation within 64 bits, which wraps round at the least word. -/
def negWord (n : Int) : Int := if n = leastWord then leastWord else -n

theorem negWord_eq_neg_iff {n : Int} : negWord n = -n ↔ n ≠ leastWord := by
  unfold negWord leastWord
  split <;> omega

end HolidayRules
