import HolidayRules.Date.Weekday

set_option autoImplicit false

/-!
# English names

Weekdays and months have a full name and an abbreviation of three letters. Either is read in any
letter case.
-/
namespace HolidayRules

def abbreviation (name : Text) : Text := name.take 3

def isNameOf (name t : Text) : Bool :=
  t.sameIgnoringCase name || t.sameIgnoringCase (abbreviation name)

namespace Weekday

def name : Weekday → Text
  | monday => "Monday".toList
  | tuesday => "Tuesday".toList
  | wednesday => "Wednesday".toList
  | thursday => "Thursday".toList
  | friday => "Friday".toList
  | saturday => "Saturday".toList
  | sunday => "Sunday".toList

def ofName? (t : Text) : Option Weekday := all.find? fun w => isNameOf w.name t

end Weekday

def monthNames : List Text :=
  ["January".toList, "February".toList, "March".toList, "April".toList, "May".toList,
    "June".toList, "July".toList, "August".toList, "September".toList, "October".toList,
    "November".toList, "December".toList]

def monthName : Nat → Text
  | 0 => []
  | n + 1 => (monthNames[n]?).getD []

def monthOfName? (t : Text) : Option Nat :=
  (monthNames.findIdx? fun name => isNameOf name t).map (· + 1)

end HolidayRules
