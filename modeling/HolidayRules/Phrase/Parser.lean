import HolidayRules.Phrase.Lexeme
import HolidayRules.Date.Names

set_option autoImplicit false

/-!
# Reading phrases

Each item starts with a date, a number or a word and looks at two further lexemes at most. `parse`
takes the items one after the other; the first that cannot be read is the error.
-/
namespace HolidayRules.Phrase

/-- The words that are an item by themselves, and those that leave the date alone. -/
def fixedWords : List (Text × Option Item) :=
  [("today".toList, none), ("now".toList, none), ("midnight".toList, none),
    ("noon".toList, none), ("tomorrow".toList, some (.offset 1 .day)),
    ("yesterday".toList, some (.offset (-1) .day)), ("ago".toList, some .ago)]

def ordinals : List (Text × Int) :=
  [("first".toList, 1), ("next".toList, 1), ("second".toList, 2), ("third".toList, 3),
    ("fourth".toList, 4), ("fifth".toList, 5), ("sixth".toList, 6), ("seventh".toList, 7),
    ("eighth".toList, 8), ("ninth".toList, 9), ("tenth".toList, 10), ("eleventh".toList, 11),
    ("twelfth".toList, 12), ("last".toList, -1)]

/-- The words before a weekday or a unit: the units to count and the way to the weekday. -/
def directions : List (Text × Int × Movement) :=
  [("next".toList, 1, .next), ("last".toList, -1, .previous), ("previous".toList, -1, .previous),
    ("this".toList, 0, .thisOrNext)]

def edges : List (Text × MonthEdge) := [("first".toList, .first), ("last".toList, .last)]

def nextWord? : List Lexeme → Option Text
  | ⟨.word w, _, _⟩ :: _ => some w
  | _ => none

def nextWeekday? (rest : List Lexeme) : Option Weekday := (nextWord? rest).bind Weekday.ofName?

def nextUnit? (rest : List Lexeme) : Option OffsetUnit := (nextWord? rest).bind OffsetUnit.ofName?

def nextStart : List Lexeme → Nat
  | lexeme :: _ => lexeme.start
  | [] => 0

def edgeItem? (w : Text) (rest : List Lexeme) : Option Item :=
  if nextWord? rest = some "day".toList ∧ nextWord? (rest.drop 1) = some "of".toList then
    (edges.lookup w).map .edge
  else none

def nthItem? (w : Text) (rest : List Lexeme) : Option Item := do
  let n ← ordinals.lookup w
  let day ← nextWeekday? rest
  if nextWord? (rest.drop 1) = some "of".toList then some (.nth n day) else none

/-- The day behind the name of a month: a number without a sign that counts no unit. -/
def dayOfMonth? : List Lexeme → Option Nat
  | ⟨.number n false, _, _⟩ :: rest =>
    if (1 ≤ n ∧ n ≤ 31) ∧ nextUnit? rest = none then some n.toNat else none
  | _ => none

def readName (position : Nat) (w : Text) (rest : List Lexeme) :
    Except PhraseError (Option Item × Nat) :=
  match Weekday.ofName? w with
  | some day => .ok (some (.weekday day .thisOrNext), 0)
  | none => match monthOfName? w with
    | some month => match dayOfMonth? rest with
      | some day => .ok (some (.month month (some day)), 1)
      | none => .ok (some (.month month none), 0)
    | none =>
      if (ordinals.lookup w).isSome then .error (.expectedOf position)
      else .error (.unexpected position w)

def readDirected (amount : Int) (movement : Movement) (rest : List Lexeme) :
    Except PhraseError (Option Item × Nat) :=
  match nextWeekday? rest with
  | some day => .ok (some (.weekday day movement), 1)
  | none => match nextUnit? rest with
    | some unit => .ok (some (.offset amount unit), 1)
    | none => .error (.missingUnit (nextStart rest))

/-- The item that a word begins, with the lexemes it takes behind the word. -/
def readWord (position : Nat) (w : Text) (rest : List Lexeme) :
    Except PhraseError (Option Item × Nat) :=
  match fixedWords.lookup w with
  | some item => .ok (item, 0)
  | none => match (edgeItem? w rest).or (nthItem? w rest) with
    | some item => .ok (some item, 2)
    | none => match directions.lookup w with
      | some (amount, movement) => readDirected amount movement rest
      | none => readName position w rest

def readItems : List Lexeme → Except PhraseError Phrase
  | [] => .ok []
  | ⟨.stop, _, _⟩ :: _ => .ok []
  | ⟨.date year month day, _, _⟩ :: rest => (readItems rest).map (.date year month day :: ·)
  | ⟨.number amount _, start, _⟩ :: rest =>
    match nextUnit? rest with
    | none => .error (.missingUnit start)
    | some unit => (readItems (rest.drop 1)).map (.offset amount unit :: ·)
  | ⟨.word w, start, _⟩ :: rest => do
    let (item, used) ← readWord start w rest
    let items ← readItems (rest.drop used)
    return item.toList ++ items
termination_by lexemes => lexemes.length
decreasing_by all_goals simp only [List.length_cons, List.length_drop]; omega

def parse (t : Text) : Except PhraseError Phrase := do
  match ← scan t with
  | [] | [_] => .error .empty
  | lexemes => readItems lexemes

end HolidayRules.Phrase
