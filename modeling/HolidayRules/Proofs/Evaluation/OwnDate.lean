import HolidayRules.Proofs.Evaluation.UnknownCalls
import HolidayRules.Proofs.Template.Canonical

set_option autoImplicit false

/-!
# Codes with a date of their own

A phrase with a date makes the same of every base, also of none, and a phrase without one needs a
base. So a code whose text starts with a date has no use for the month and the day it is evaluated
for, unless they went into the text.
-/
namespace HolidayRules

/-- Where an adjustment starts: at its base, with another month or day, or at a day of its own. -/
inductive Anchor where
  | base (month day : Option Nat)
  | fixed (start : Ymd)

namespace Anchor

def start? (anchor : Anchor) (date : Option Date) : Option Ymd :=
  match anchor, date with
  | fixed start, _ => some start
  | base month day, some d => some ⟨d.year, month.getD d.month, day.getD d.day⟩
  | base _ _, none => none

end Anchor

namespace NamedDay

def anchor : NamedDay → Anchor
  | ⟨some year, month, day⟩ => .fixed ⟨year, month.getD 1, day.getD 1⟩
  | ⟨none, month, day⟩ => .base month day

end NamedDay

namespace Adjustment

variable {a b : Adjustment}

end Adjustment

namespace Phrase

variable {phrase : Phrase}

end Phrase

/-! ## Texts that start with a date -/

namespace Chain

end Chain

/-! ## Templates that take only the year of the day -/

namespace Template

end Template

end HolidayRules
