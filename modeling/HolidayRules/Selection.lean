import HolidayRules.Rule.Basic
import HolidayRules.Rule.Region

set_option autoImplicit false

/-!
# Selections of rules

A selection is made of rules, the region and the kinds that pick among them, and the registry that
resolves them. The places of the picked rules are kept, so that a change of the region or the kinds
has to pick again. A selection lists the holidays of a year, of several years, and finds the rule of
one day.
-/
namespace HolidayRules

def Rule.isPicked (r : Rule) (region : Region) (kinds : Kinds) : Bool :=
  r.kinds.meets kinds && r.regions.any region.startsWith

def pickedPlaces (rules : List Rule) (region : Region) (kinds : Kinds) : List Nat :=
  (rules.zipIdx.filter fun entry => entry.1.isPicked region kinds).map Prod.snd

structure Selection where
  rules : List Rule
  region : Region
  kinds : Kinds
  registry : Registry
  places : List Nat := pickedPlaces rules region kinds

structure Defaults where
  month : Nat := 1
  day : Nat := 1
deriving DecidableEq, Repr

abbrev Holiday := Ymd × Rule

/-- By date, so that a stable sort keeps the rules of one date in their order. -/
def Holiday.atMost (a b : Holiday) : Bool := a.1.atMost b.1

/-- Descending by the excepted years, then by the years, both compared as text. -/
def Rule.isTriedBefore (a b : Rule) : Bool :=
  if a.exceptedYears = b.exceptedYears then Text.atMost b.years a.years
  else Text.atMost b.exceptedYears a.exceptedYears

def Rule.holiday? (registry : Registry) (defaults : Ymd) (r : Rule) :
    Except ExtensionError (Option Holiday) :=
  (r.outcome registry defaults).map fun outcome => outcome.date?.map (·, r)

namespace Selection

def make (rules : List Rule) (region : Text) (kinds : Kinds) : Except RegionError Selection :=
  (Region.parse region).map fun region =>
    { rules := rules, region := region, kinds := kinds, registry := .builtin }

def inRegion (s : Selection) (region : Text) : Except RegionError Selection :=
  (Region.parse region).map fun region =>
    { s with region := region, places := pickedPlaces s.rules region s.kinds }

def withKinds (s : Selection) (kinds : Kinds) : Selection :=
  { s with kinds := kinds, places := pickedPlaces s.rules s.region kinds }

def withRegistry (s : Selection) (registry : Registry) : Selection := { s with registry := registry }

def selected (s : Selection) : List Rule := s.places.filterMap fun place => s.rules[place]?

def unsorted (s : Selection) (rules : List Rule) (defaults : Ymd) :
    Except ExtensionError (List Holiday) :=
  (rules.mapM (Rule.holiday? s.registry defaults)).map fun found => found.filterMap id

def holidays (s : Selection) (year : Int) (defaults : Defaults) :
    Except ExtensionError (List Holiday) :=
  (s.unsorted s.selected ⟨year, defaults.month, defaults.day⟩).map
    fun list => list.mergeSort Holiday.atMost

/-- Tells whether a rule falls on a date, which also stands in for a missing month or day. -/
def fallsOn (s : Selection) (d : Date) (r : Rule) : Except ExtensionError Bool :=
  (r.outcome s.registry d.toYmd).map fun outcome => outcome.date? == some d.toYmd

/-- The first rule of a list that falls on a date. Rules behind it are not looked at. -/
def firstOn? (s : Selection) (d : Date) : List Rule → Except ExtensionError (Option Rule)
  | [] => .ok none
  | r :: rest => match s.fallsOn d r with
    | .error e => .error e
    | .ok true => .ok (some r)
    | .ok false => firstOn? s d rest

/-- The rule of a date. Rules bound to some years are tried before those that hold in all. -/
def ruleOf? (s : Selection) (d : Date) : Except ExtensionError (Option Rule) :=
  s.firstOn? d (s.selected.mergeSort Rule.isTriedBefore)

def hasHoliday (s : Selection) (d : Date) : Except ExtensionError Bool :=
  (s.ruleOf? d).map Option.isSome

def yearsFrom (first last : Int) : List Int :=
  (List.range (last - first + 1).toNat).map fun (k : Nat) => first + k

def holidaysOfYears (s : Selection) (first last : Int) (accepts : Rule → Bool) :
    Except ExtensionError (List Holiday) :=
  ((yearsFrom first last).mapM fun year =>
      s.unsorted (s.selected.filter accepts) ⟨year, 1, 1⟩).map
    fun lists => lists.flatten.mergeSort Holiday.atMost

end Selection
end HolidayRules
