import HolidayRules.Date.Number

set_option autoImplicit false

/-!
# Weekdays

The week runs from Monday to Sunday. Day 1 is a Monday.
-/
namespace HolidayRules

inductive Weekday where
  | monday
  | tuesday
  | wednesday
  | thursday
  | friday
  | saturday
  | sunday
deriving DecidableEq, Repr

namespace Weekday

def all : List Weekday := [monday, tuesday, wednesday, thursday, friday, saturday, sunday]

def index : Weekday → Nat
  | monday => 0
  | tuesday => 1
  | wednesday => 2
  | thursday => 3
  | friday => 4
  | saturday => 5
  | sunday => 6

def ofIndex : Nat → Weekday
  | 0 => monday
  | 1 => tuesday
  | 2 => wednesday
  | 3 => thursday
  | 4 => friday
  | 5 => saturday
  | _ => sunday

@[simp] theorem ofIndex_index (w : Weekday) : ofIndex w.index = w := by cases w <;> rfl

theorem index_lt (w : Weekday) : w.index < 7 := by cases w <;> decide

theorem index_ofIndex {n : Nat} (h : n < 7) : (ofIndex n).index = n := by
  match n, h with
  | 0, _ | 1, _ | 2, _ | 3, _ | 4, _ | 5, _ | 6, _ => rfl

def ofNumber (n : Int) : Weekday := ofIndex ((n - 1) % 7).toNat

theorem index_ofNumber (n : Int) : ((ofNumber n).index : Int) = (n - 1) % 7 := by
  unfold ofNumber
  rw [index_ofIndex (by omega)]
  omega

/-- The days from one weekday to the first `goal` that is not before it. -/
def daysUntil (start goal : Weekday) : Nat := (goal.index + 7 - start.index) % 7

def isWeekend (w : Weekday) : Bool := w = saturday || w = sunday

end Weekday

def Date.weekday (d : Date) : Weekday := .ofNumber d.number

end HolidayRules
