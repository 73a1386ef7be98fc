import HolidayRules.Text.Decimal

set_option autoImplicit false

/-!
# Templates

The code of a rule is a template: text between groups in double braces. A group is a slot for a part
of the day or for a feast, the call of a named extension, or a list with an entry for each year. Each
template has its source text, and `cons` and `join` keep neighbouring texts in one piece.
-/
namespace HolidayRules

inductive Slot where
  | year
  | month
  | day
  | easter
  | easterOrthodox
  | passover
deriving DecidableEq, Repr

namespace Slot

def all : List Slot := [year, month, day, easter, easterOrthodox, passover]

def name : Slot → Text
  | year => "year".toList
  | month => "month".toList
  | day => "day".toList
  | easter => "easter".toList
  | easterOrthodox => "easter_o".toList
  | passover => "passover".toList

def ofName? (t : Text) : Option Slot := all.find? fun slot => t = slot.name

end Slot

/-- A piece of a template. The entries of a year list are for the year `first` and those after it. -/
inductive Piece where
  | text (t : Text)
  | slot (slot : Slot)
  | call (name : Text)
  | years (first : Nat) (entries : List (List Piece))

abbrev Template := List Piece

def openBraces : Text := ['{', '{']

def closeBraces : Text := ['}', '}']

def inBraces (t : Text) : Text := openBraces ++ t ++ closeBraces

def isCallName (t : Text) : Bool := !t.isEmpty && t.all Char.isLower

mutual

def Piece.source : Piece → Text
  | .text t => t
  | .slot slot => inBraces slot.name
  | .call name => inBraces name
  | .years first entries => inBraces (Decimal.paddedNatural 4 first ++ ':' :: entriesSource entries)

def piecesSource : List Piece → Text
  | [] => []
  | piece :: rest => piece.source ++ piecesSource rest

def entriesSource : List (List Piece) → Text
  | [] => []
  | [entry] => piecesSource entry
  | entry :: next :: rest => piecesSource entry ++ ',' :: entriesSource (next :: rest)

end

namespace Template

def source (template : Template) : Text := piecesSource template

/-- Puts a piece in front; text in front of text becomes one text. -/
def cons : Piece → Template → Template
  | .text s, .text t :: rest => .text (s ++ t) :: rest
  | piece, rest => piece :: rest

def join (a b : Template) : Template := a.foldr cons b

def firstCall? : Template → Option Text
  | [] => none
  | .call name :: _ => some name
  | _ :: rest => firstCall? rest

def firstYears? : Template → Option Piece
  | [] => none
  | .years first entries :: _ => some (.years first entries)
  | _ :: rest => firstYears? rest

def entryFor? (first : Nat) (entries : List Template) (year : Int) : Option Template :=
  if year < first then none else entries[(year - first).toNat]?

/-- The template with the entry for the year in place of its first year list, if there is one. -/
def choose? (year : Int) : Template → Option Template
  | [] => some []
  | .years first entries :: rest => (entryFor? first entries year).map (· ++ rest)
  | piece :: rest => (choose? year rest).map (piece :: ·)

end Template
end HolidayRules
