import HolidayRules.Guard
import HolidayRules.Phrase.Adjustment

set_option autoImplicit false

/-!
# Chains of steps

A chain hands a date from step to step. A plain step applies a phrase; a guarded one applies its
phrase only to dates that pass the guard, or, having none, takes away the dates that do not.
-/
namespace HolidayRules

inductive Step where
  | plain (phrase : Phrase)
  | guarded (guard : Guard) (action : Option Phrase)
deriving DecidableEq, Repr

abbrev Chain := List Step

/-- The date after a step, or `none` where the step takes the date away. -/
def Step.apply (step : Step) (current : Option Date) : Except PhraseError (Option Date) :=
  match step with
  | .plain phrase => (phrase.apply current).map some
  | .guarded guard action =>
    match current with
    | none => .error .missingBase
    | some d => match guard.holds d, action with
      | true, some phrase => (phrase.apply current).map some
      | false, none => .ok none
      | _, _ => .ok current

def Step.overflows (step : Step) (current : Option Date) : Bool :=
  match step with
  | .plain phrase => phrase.overflows
  | .guarded guard action =>
    match current, action with
    | some d, some phrase => guard.holds d && phrase.overflows
    | _, _ => false

namespace Chain

/-- Applies the steps in turn until one of them takes the date away. A chain needs a date in the
end. -/
def apply : Chain → Option Date → Except PhraseError (Option Date)
  | [], none => .error .missingBase
  | [], some d => .ok (some d)
  | step :: rest, current =>
    match step.apply current with
    | .error e => .error e
    | .ok none => .ok none
    | .ok (some d) => apply rest (some d)

def overflows : Chain → Option Date → Bool
  | [], _ => false
  | step :: rest, current => step.overflows current || match step.apply current with
    | .ok (some d) => overflows rest (some d)
    | _ => false

end Chain
end HolidayRules
