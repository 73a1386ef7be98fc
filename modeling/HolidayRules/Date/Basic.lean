import HolidayRules.Text.Decimal

set_option autoImplicit false

/-!
# Written dates and existing dates

A `Ymd` is any year, month and day. A `Date` is one that exists in the proleptic Gregorian calendar
and whose year lies in the supported range; only a `Date` can be counted with.
-/
namespace HolidayRules

/-- A year, a month and a day of the month that need not exist. -/
structure Ymd where
  year : Int
  month : Nat
  day : Nat
deriving DecidableEq, Repr

def minYear : Int := -262143

def maxYear : Int := 262142

def isLeap (year : Int) : Bool :=
  year % 4 == 0 && (year % 100 != 0 || year % 400 == 0)

def yearLength (year : Int) : Nat := if isLeap year then 366 else 365

def monthLength (year : Int) : Nat → Nat
  | 2 => if isLeap year then 29 else 28
  | 4 | 6 | 9 | 11 => 30
  | _ => 31

namespace Ymd

def Exists (d : Ymd) : Prop :=
  (minYear ≤ d.year ∧ d.year ≤ maxYear) ∧ (1 ≤ d.month ∧ d.month ≤ 12) ∧
    1 ≤ d.day ∧ d.day ≤ monthLength d.year d.month

instance (d : Ymd) : Decidable d.Exists := by
  unfold Exists
  infer_instance

def atMost (a b : Ymd) : Bool :=
  a.year < b.year || a.year == b.year &&
    (a.month < b.month || a.month == b.month && a.day ≤ b.day)

/-- The year takes at least four places, its sign included, month and day at least two. -/
def text (d : Ymd) : Text :=
  Decimal.padded 4 d.year ++ '-' :: Decimal.paddedNatural 2 d.month ++
    '-' :: Decimal.paddedNatural 2 d.day

end Ymd

structure Date extends Ymd where
  valid : toYmd.Exists
deriving DecidableEq, Repr

def Date.first : Date := ⟨⟨minYear, 1, 1⟩, by decide⟩

namespace Ymd

def date? (d : Ymd) : Option Date := if h : d.Exists then some ⟨d, h⟩ else none

@[simp] theorem date?_toYmd (d : Date) : d.toYmd.date? = some d := by
  simp [date?, d.valid]

theorem date?_eq_some_iff {d : Ymd} {e : Date} : d.date? = some e ↔ d = e.toYmd := by
  constructor
  · intro h
    unfold date? at h
    split at h
    · cases h
      rfl
    · cases h
  · rintro rfl
    exact date?_toYmd e

theorem date?_isSome_iff {d : Ymd} : d.date?.isSome ↔ d.Exists := by
  unfold date?
  split <;> simp_all

end Ymd
end HolidayRules
