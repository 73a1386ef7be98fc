import HolidayRules.Calendar.Hebrew
import HolidayRules.Calendar.Hijri
import HolidayRules.Template.Basic

set_option autoImplicit false

/-!
# Extensions

An extension turns a year, a month and a day into text for a rule, or has nothing for them. A
registry keeps extensions by name, the newest first and one for each name. Only a name that a
template can call is taken.
-/
namespace HolidayRules

abbrev Extension := Ymd → Option Text

inductive ExtensionError where
  | unknown (name : Text)
  | invalidName (name : Text)
deriving DecidableEq, Repr

def ExtensionError.message : ExtensionError → Text
  | unknown name => "unknown extension '".toList ++ inBraces name ++ "'".toList
  | invalidName name =>
    "invalid extension name '".toList ++ name ++
      "': only lowercase ascii letters are allowed".toList

structure Registry where
  entries : List (Text × Extension)

namespace Registry

def empty : Registry := ⟨[]⟩

def islamic : Extension := fun d =>
  (HijriDate.inYear? d.year d.month d.day).map fun found => found.text

def hebrew : Extension := fun d =>
  (Hebrew.inYear? d.year d.month d.day).map fun found => found.text

def builtin : Registry := ⟨[("hebrew".toList, hebrew), ("islamic".toList, islamic)]⟩

/-- A word that a template can call: letters from a to z that name no slot. -/
def isValidName (name : Text) : Bool := isCallName name && (Slot.ofName? name).isNone

def get? (r : Registry) (name : Text) : Option Extension := r.entries.lookup name

def contains (r : Registry) (name : Text) : Bool := (r.get? name).isSome

def register (name : Text) (extension : Extension) : EStateM ExtensionError Registry Unit := do
  unless isValidName name do
    throw (.invalidName name)
  modify fun r => ⟨(name, extension) :: r.entries.filter fun entry => entry.1 ≠ name⟩

def insert (r : Registry) (name : Text) (extension : Extension) :
    Except ExtensionError Registry :=
  match (register name extension).run r with
  | .ok () next => .ok next
  | .error e _ => .error e

def names (r : Registry) : List Text :=
  (r.entries.map Prod.fst).mergeSort Text.atMost

def call (r : Registry) (name : Text) (d : Ymd) : Except ExtensionError (Option Text) :=
  match r.get? name with
  | none => .error (.unknown name)
  | some extension => .ok (extension d)

def summary (r : Registry) : Text :=
  "ExtensionRegistry \x7b names: [".toList ++
    (", ".toList).intercalate (r.names.map fun name => '"' :: name ++ ['"']) ++ "] \x7d".toList

end Registry
end HolidayRules
