import HolidayRules.Phrase.Basic
import HolidayRules.Text.Blank

set_option autoImplicit false

/-!
# The lexemes of a phrase

A phrase is cut into dates, numbers and words; blanks and commas stand between them. Each lexeme
carries the byte positions of its ends, and the list always closes with `Token.stop`.
-/
namespace HolidayRules.Phrase

inductive Token where
  | date (year month : Nat) (day : Option Nat)
  | number (value : Int) (signed : Bool)
  | word (letters : Text)
  | stop
deriving DecidableEq, Repr

structure Lexeme where
  token : Token
  start : Nat
  stop : Nat
deriving DecidableEq, Repr

def isGap (c : Char) : Bool := isBlank c || c = ','

/-- The number of a run of digits; the run itself if the number does not fit. -/
def boundedValue (digits : Text) : Except Text Nat :=
  if inWord (Decimal.value digits) then .ok (Decimal.value digits) else .error digits

def dashedDigits? : Text → Option Text
  | '-' :: c :: rest => if c.isDigit then some (((c :: rest).take 2).takeWhile Char.isDigit) else none
  | _ => none

def dateTail? (t : Text) : Option (Nat × Option Nat × Nat) := do
  let month ← dashedDigits? t
  match dashedDigits? (t.drop (month.length + 1)) with
  | none => return (Decimal.value month, none, month.length + 1)
  | some day =>
    return (Decimal.value month, some (Decimal.value day), month.length + day.length + 2)

/-- A date if four digits, a dash and a digit come first, else a number; with the characters that it
takes. -/
def readDigits (t : Text) : Except Text (Token × Nat) :=
  let digits := t.takeWhile Char.isDigit
  let number := (boundedValue digits).map fun n => (Token.number n false, digits.length)
  if digits.length = 4 then
    match dateTail? (t.drop 4) with
    | some (month, day, used) => .ok (.date (Decimal.value digits) month day, 4 + used)
    | none => number
  else number

def readSigned (sign : Char) (t : Text) : Except Text (Token × Nat) :=
  let digits := t.takeWhile Char.isDigit
  if digits = [] then .error [sign]
  else (boundedValue digits).map fun n =>
    (.number (if sign = '-' then -n else n) true, digits.length + 1)

/-- The token that a text with the first character `c` begins with and the characters that it takes,
or the text that is no token. -/
def readToken (c : Char) (rest : Text) : Except Text (Token × Nat) :=
  if c.isDigit then readDigits (c :: rest)
  else if c = '+' ∨ c = '-' then readSigned c rest
  else if c.isAlpha then
    let word := (c :: rest).takeWhile Char.isAlpha
    .ok (.word (Text.lower word), word.length)
  else .error [c]

def scanFrom (position : Nat) : Text → Except PhraseError (List Lexeme)
  | [] => .ok [⟨.stop, position, position⟩]
  | c :: rest =>
    if isGap c then scanFrom (position + c.utf8Size) rest
    else match readToken c rest with
      | .error found => .error (.unexpected position found)
      | .ok (token, used) =>
        let stop := position + Text.byteLength ((c :: rest).take used)
        (scanFrom stop (rest.drop (used - 1))).map (⟨token, position, stop⟩ :: ·)
termination_by t => t.length
decreasing_by all_goals simp only [List.length_cons, List.length_drop]; omega

def scan (t : Text) : Except PhraseError (List Lexeme) := scanFrom 0 t

end HolidayRules.Phrase
