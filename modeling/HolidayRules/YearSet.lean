import HolidayRules.Text.Blank
import HolidayRules.Text.Decimal

set_option autoImplicit false

/-!
# Year sets

The years in which a rule holds are written as one year, an open range, or a list of years and
closed ranges. `holdsIn` takes the years a rule excepts from those it names.
-/
namespace HolidayRules

inductive YearSpan where
  | year (year : Nat)
  | range (first last : Nat)
deriving DecidableEq, Repr

inductive YearSet where
  | unconstrained
  | exact (year : Nat)
  | since (year : Nat)
  | through (year : Nat)
  | list (spans : List YearSpan)
  | wildcard
  | malformed
deriving DecidableEq, Repr

namespace YearSpan

def parse? (t : Text) : Option YearSpan :=
  match Decimal.fourDigits? t with
  | some n => some (.year n)
  | none => do
    let (first, last) ← Text.cut? ['-'] t
    return .range (← Decimal.fourDigits? first) (← Decimal.fourDigits? last)

def contains (span : YearSpan) (y : Int) : Bool :=
  match span with
  | .year n => y = n
  | .range first last => first ≤ y && y ≤ last

end YearSpan

namespace YearSet

def since? (t : Text) : Option Nat :=
  if t.getLast? = some '-' then Decimal.fourDigits? t.dropLast else none

def through? : Text → Option Nat
  | '-' :: digits => Decimal.fourDigits? digits
  | _ => none

def list? (t : Text) : Option (List YearSpan) :=
  (t.splitOn ',').mapM fun item => YearSpan.parse? (Text.trim item)

def ofTrimmed (t : Text) : YearSet :=
  if t = [] then unconstrained
  else if t = ['*'] then wildcard
  else match Decimal.fourDigits? t with
    | some year => exact year
    | none => match since? t with
      | some year => since year
      | none => match through? t with
        | some year => through year
        | none => ((list? t).map list).getD malformed

def parse (t : Text) : YearSet := ofTrimmed (Text.trim t)

/-- The wildcard has a meaning only as an exception, so it names no year. -/
def contains (set : YearSet) (y : Int) : Bool :=
  match set with
  | unconstrained => true
  | exact year => y = year
  | since year => year ≤ y
  | through year => y ≤ year
  | list spans => spans.any (·.contains y)
  | wildcard | malformed => false

/-- The years that a set takes away when it stands as an exception: none if it is empty, and all of
them if it is the wildcard or cannot be read. -/
def excepts (set : YearSet) (y : Int) : Bool :=
  match set with
  | unconstrained => false
  | wildcard | malformed => true
  | set => set.contains y

def holdsIn (named excepted : YearSet) (year : Int) : Bool :=
  !excepted.excepts year && named.contains year

end YearSet
end HolidayRules
