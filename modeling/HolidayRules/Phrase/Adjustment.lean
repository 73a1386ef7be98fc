import HolidayRules.Phrase.Basic

set_option autoImplicit false

/-!
# Applying phrases

The items of a phrase are gathered into an `Adjustment` and then carried out in a fixed order: the
day to start from, moves to weekdays, months, days, working days, the edge of the month, and last the
numbered weekday of the month. Sums of offsets that cannot be held make a phrase fail, but `ago` turns
them round unchecked. The negation of the least word then wraps round, or stops the run where
arithmetic is checked throughout.
-/
namespace HolidayRules

/-- The parts of the day to start from that a phrase names. -/
structure NamedDay where
  year : Option Int
  month : Option Nat
  day : Option Nat
deriving DecidableEq, Repr

namespace NamedDay

def unnamed : NamedDay := ⟨none, none, none⟩

def ofDate (year : Int) (month : Nat) (day : Option Nat) : NamedDay :=
  ⟨some year, some month, some (day.getD 1)⟩

def withMonth (named : NamedDay) (month : Nat) (day : Option Nat) : NamedDay :=
  { named with month := some month, day := day.or named.day }

/-- The date for the parts without a name. The first of all dates stands in for a missing base where
the year is named. -/
def base? (named : NamedDay) : Option Date → Option Date
  | some d => some d
  | none => if named.year.isSome then some .first else none

def start? (named : NamedDay) (base : Option Date) : Option Ymd :=
  (named.base? base).map fun d =>
    ⟨named.year.getD d.year, named.month.getD d.month, named.day.getD d.day⟩

theorem start?_unnamed (d : Date) : unnamed.start? (some d) = some ⟨d.year, d.month, d.day⟩ := rfl

theorem start?_ofDate (year : Int) (month : Nat) (day : Option Nat) (base : Option Date) :
    (ofDate year month day).start? base = some ⟨year, month, day.getD 1⟩ := by
  cases base <;> rfl

end NamedDay

structure Totals where
  months : Int
  days : Int
  workingDays : Int
deriving DecidableEq, Repr

namespace Totals

/-- Adds `amount` times `scale`, if both product and sum can be held. -/
def addScaled? (total amount scale : Int) : Option Int :=
  if inWord (amount * scale) && inWord (total + amount * scale) then some (total + amount * scale)
  else none

def add? (t : Totals) (amount : Int) (unit : OffsetUnit) : Option Totals :=
  match unit with
  | .day => (addScaled? t.days amount 1).map fun n => { t with days := n }
  | .week => (addScaled? t.days amount 7).map fun n => { t with days := n }
  | .fortnight => (addScaled? t.days amount 14).map fun n => { t with days := n }
  | .month => (addScaled? t.months amount 1).map fun n => { t with months := n }
  | .year => (addScaled? t.months amount 12).map fun n => { t with months := n }
  | .weekday => (addScaled? t.workingDays amount 1).map fun n => { t with workingDays := n }

def neg (t : Totals) : Totals := ⟨negWord t.months, negWord t.days, negWord t.workingDays⟩

/-- A sum is the least word, whose negation cannot be held. -/
def hasLeast (t : Totals) : Bool :=
  t.months == leastWord || t.days == leastWord || t.workingDays == leastWord

theorem neg_eq_iff {t : Totals} :
    t.neg = ⟨-t.months, -t.days, -t.workingDays⟩ ↔ t.hasLeast = false := by
  simp [neg, hasLeast, negWord_eq_neg_iff, and_assoc]

end Totals

structure Adjustment where
  named : NamedDay
  moves : List (Weekday × Movement)
  totals : Totals
  edge : Option MonthEdge
  nth : Option (Int × Weekday)
deriving DecidableEq, Repr

namespace Adjustment

def identity : Adjustment := ⟨.unnamed, [], ⟨0, 0, 0⟩, none, none⟩

/-- Takes in one more item. Of two edges, or of two numbered weekdays, the later one counts. -/
def add? (a : Adjustment) : Item → Option Adjustment
  | .date year month day => some { a with named := .ofDate year month day }
  | .month month day => some { a with named := a.named.withMonth month day }
  | .offset amount unit => (a.totals.add? amount unit).map fun totals => { a with totals := totals }
  | .ago => some { a with totals := a.totals.neg }
  | .weekday day movement => some { a with moves := a.moves ++ [(day, movement)] }
  | .edge edge => some { a with edge := some edge }
  | .nth n day => some { a with nth := some (n, day) }

def ofPhrase? (phrase : Phrase) : Option Adjustment := phrase.foldlM add? identity

/-- Tells whether an `ago` meets the least word while the items are taken in. -/
def overflows : Phrase → Adjustment → Bool
  | [], _ => false
  | item :: rest, a => (item = .ago && a.totals.hasLeast) || match a.add? item with
    | none => false
    | some b => overflows rest b

/-- Months are counted from the first of the month where only the month matters in the end. -/
def monthStart? (a : Adjustment) (d : Date) : Option Date :=
  if a.edge.isSome || a.nth.isSome then d.yearMonth.first? else some d

def toEdge? (a : Adjustment) (d : Date) : Option Date :=
  match a.edge with
  | some edge => d.yearMonth.edge? edge
  | none => some d

def toNth? (a : Adjustment) (d : Date) : Option Date :=
  match a.nth with
  | some (n, day) => d.yearMonth.weekday? n day
  | none => some d

def run? (a : Adjustment) (start : Ymd) : Option Date := do
  let d ← (YearMonth.mk start.year start.month).day? start.day
  let d ← a.moves.foldlM (fun d move => d.toWeekday? move.2 move.1) d
  let d ← a.monthStart? d
  let d ← d.monthsLater? a.totals.months
  let d ← d.daysLater? a.totals.days
  let d ← d.workingDaysLater? a.totals.workingDays
  let d ← a.toEdge? d
  a.toNth? d

end Adjustment

namespace Phrase

/-- The date that a phrase makes of a base date, which a phrase with a date of its own needs not
have. -/
def apply (phrase : Phrase) (base : Option Date) : Except PhraseError Date :=
  match Adjustment.ofPhrase? phrase with
  | none => .error .outOfRange
  | some a => match a.named.start? base with
    | none => .error .missingBase
    | some start => match a.run? start with
      | none => .error .outOfRange
      | some d => .ok d

theorem apply_of_start? {phrase : Phrase} {base : Option Date} {a : Adjustment} {start : Ymd}
    (h : Adjustment.ofPhrase? phrase = some a) (hstart : a.named.start? base = some start) :
    phrase.apply base = (a.run? start).elim (.error .outOfRange) .ok := by
  unfold apply
  rw [h]
  dsimp only
  rw [hstart]
  dsimp only
  cases a.run? start <;> rfl

def overflows (phrase : Phrase) : Bool := Adjustment.overflows phrase .identity

end Phrase
end HolidayRules
