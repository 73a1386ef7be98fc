import HolidayRules.Chain.Parser
import HolidayRules.Extension
import HolidayRules.Feast.Easter
import HolidayRules.Feast.Passover
import HolidayRules.Template.Parser

set_option autoImplicit false

/-!
# The outcome of a code

A code is read as a template, its first year list is replaced by the entry of the year, its first
extension is called and its slots are filled. The text that results is a chain, applied to the day
the code is evaluated for. Anything that fails on the way means that the code does not apply; only an
unknown extension is an error.
-/
namespace HolidayRules

inductive Outcome where
  | date (d : Ymd)
  | notApplicable
deriving DecidableEq, Repr

namespace Outcome

def ofOption : Option Ymd → Outcome
  | some d => date d
  | none => notApplicable

def date? : Outcome → Option Ymd
  | date d => some d
  | notApplicable => none

end Outcome

/-- The text for a slot; a feast has none outside the supported years. -/
def Slot.value? (d : Ymd) : Slot → Option Text
  | year => some (Decimal.integer d.year)
  | month => some (Decimal.natural d.month)
  | day => some (Decimal.natural d.day)
  | easter => (Easter.date? .western d.year).map fun feast => feast.text
  | easterOrthodox => (Easter.date? .orthodox d.year).map fun feast => feast.text
  | passover => (Passover.date? d.year).map fun feast => feast.text

/-- The text for a piece, where the extension called is given with its answer. Any other call and
every year list stay as they are written. -/
def Piece.fill? (d : Ymd) (called : Option (Text × Text)) : Piece → Option Text
  | .text t => some t
  | .slot s => s.value? d
  | .call name => match called with
    | some (first, answer) => some (if name = first then answer else (Piece.call name).source)
    | none => some (Piece.call name).source
  | .years first entries => some (Piece.years first entries).source

namespace Template

def fill? (d : Ymd) (called : Option (Text × Text)) (template : Template) : Option Text :=
  (template.mapM (Piece.fill? d called)).map List.flatten

/-- The text of a template without its first year list, or `none` if the extension or a slot has
nothing for the day. -/
def expand (registry : Registry) (d : Ymd) (template : Template) :
    Except ExtensionError (Option Text) :=
  match firstCall? template with
  | none => .ok (fill? d none template)
  | some name => match registry.call name d with
    | .error e => .error e
    | .ok none => .ok none
    | .ok (some answer) => .ok (fill? d (some (name, answer)) template)

end Template

def Chain.outcome (t : Text) (d : Ymd) : Outcome :=
  match Chain.parse t with
  | .error _ => .notApplicable
  | .ok chain => match chain.apply d.date? with
    | .ok (some result) => .date result.toYmd
    | _ => .notApplicable

def Template.evaluate (registry : Registry) (template : Template) (d : Ymd) :
    Except ExtensionError Outcome :=
  match template.choose? d.year with
  | none => .ok .notApplicable
  | some chosen => match chosen.expand registry d with
    | .error e => .error e
    | .ok none => .ok .notApplicable
    | .ok (some t) => .ok (Chain.outcome t d)

def evaluate (registry : Registry) (code : Text) (d : Ymd) : Except ExtensionError Outcome :=
  (Template.parse code).evaluate registry d

/-! ## Checked arithmetic -/

def Chain.textOverflows (t : Text) (d : Ymd) : Bool :=
  match Chain.parse t with
  | .error _ => false
  | .ok chain => chain.overflows d.date?

def Template.overflows (registry : Registry) (template : Template) (d : Ymd) : Bool :=
  match template.choose? d.year with
  | none => false
  | some chosen => match chosen.expand registry d with
    | .ok (some t) => Chain.textOverflows t d
    | _ => false

end HolidayRules
