import HolidayRules.Chain.Basic
import HolidayRules.Phrase.Parser

set_option autoImplicit false

/-!
# Reading chains

Steps are divided by bars. A step that starts with two opening braces and a question mark has a
guard, which ends at the next two closing braces; the phrase behind it may be missing. Errors carry
byte positions in the whole chain.
-/
namespace HolidayRules

inductive GuardFault where
  | unclosed
  | missingEquals
  | missingLetters
  | missingValues
deriving DecidableEq, Repr

def GuardFault.reason : GuardFault → Text
  | unclosed => "missing '\x7d\x7d'".toList
  | missingEquals => "missing '=' or '!='".toList
  | missingLetters => "missing format letters".toList
  | missingValues => "missing values".toList

inductive ChainError where
  | invalidGuard (position : Nat) (fault : GuardFault)
  | unknownLetter (position : Nat) (found : Char)
  | invalidPhrase (position : Nat) (cause : PhraseError)
deriving DecidableEq, Repr

def ChainError.message : ChainError → Text
  | invalidGuard position fault =>
    "invalid condition at position ".toList ++ Decimal.natural position ++ ": ".toList ++
      fault.reason
  | unknownLetter position found =>
    "unknown format letter '".toList ++ found :: "' at position ".toList ++
      Decimal.natural position
  | invalidPhrase position cause =>
    "invalid date expression at position ".toList ++ Decimal.natural position ++ ": ".toList ++
      cause.message

namespace Guard

def opening : Text := ['{', '{', '?']

def closing : Text := ['}', '}']

def readLetters (position : Nat) : Text → Except ChainError (List DateLetter)
  | [] => .ok []
  | c :: rest =>
    match DateLetter.ofChar? c with
    | none => .error (.unknownLetter position c)
    | some letter => (readLetters (position + c.utf8Size) rest).map (letter :: ·)

def parse (position : Nat) (body : Text) : Except ChainError Guard :=
  match Text.cut? ['='] body with
  | none => .error (.invalidGuard position .missingEquals)
  | some (before, after) =>
    let negated := before.getLast? == some '!'
    let names := if negated then before.dropLast else before
    if names = [] then .error (.invalidGuard position .missingLetters)
    else match readLetters position names with
      | .error e => .error e
      | .ok letters =>
        if Text.commaItems after = [] then .error (.invalidGuard position .missingValues)
        else .ok ⟨letters, negated, Text.commaItems after⟩

end Guard

/-- A phrase of a chain, of which a fault is told with the position of the phrase. -/
def Phrase.parseAt (position : Nat) (t : Text) : Except ChainError Phrase :=
  (Phrase.parse t).mapError (.invalidPhrase position)

namespace Step

def parseAction (position : Nat) (t : Text) : Except ChainError (Option Phrase) :=
  if t.trim = [] then .ok none else (Phrase.parseAt position t.trim).map some

def parseGuarded (position : Nat) (t : Text) : Except ChainError Step :=
  match Text.cut? Guard.closing t with
  | none => .error (.invalidGuard position .unclosed)
  | some (body, after) => do
    let bodyStart := position + Guard.opening.byteLength
    let guard ← Guard.parse bodyStart body
    let action ← parseAction (bodyStart + body.byteLength + Guard.closing.byteLength) after
    return .guarded guard action

def parse (position : Nat) (segment : Text) : Except ChainError Step :=
  let t := segment.trim
  let start := position + segment.indent
  if Guard.opening.isPrefixOf t then parseGuarded start (t.drop Guard.opening.length)
  else (Phrase.parseAt start t).map plain

end Step

namespace Chain

def parseSteps (position : Nat) : List Text → Except ChainError Chain
  | [] => .ok []
  | segment :: rest => do
    let step ← Step.parse position segment
    let steps ← parseSteps (position + segment.byteLength + 1) rest
    return step :: steps

def parse (t : Text) : Except ChainError Chain := parseSteps 0 (t.splitOn '|')

end Chain
end HolidayRules
