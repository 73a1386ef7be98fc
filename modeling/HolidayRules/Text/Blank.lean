import HolidayRules.Text.Basic

set_option autoImplicit false

/-!
# Blank characters

A character is blank when Unicode gives it the property `White_Space`. The twenty-five code points
are listed as ranges; `trim` drops them on both sides of a text.
-/
namespace HolidayRules

def blankRanges : List (Nat × Nat) :=
  [(0x09, 0x0D), (0x20, 0x20), (0x85, 0x85), (0xA0, 0xA0), (0x1680, 0x1680), (0x2000, 0x200A),
    (0x2028, 0x2029), (0x202F, 0x202F), (0x205F, 0x205F), (0x3000, 0x3000)]

def isBlank (c : Char) : Bool :=
  blankRanges.any fun range => range.1 ≤ c.toNat && c.toNat ≤ range.2

namespace Text

def trimStart (t : Text) : Text := t.dropWhile isBlank

def trimEnd (t : Text) : Text := (t.reverse.dropWhile isBlank).reverse

def trim (t : Text) : Text := trimEnd (trimStart t)

/-- The bytes that `trimStart` drops. -/
def indent (t : Text) : Nat := byteLength (t.takeWhile isBlank)

def commaItems (t : Text) : List Text :=
  ((t.splitOn ',').map trim).filter (!·.isEmpty)

end Text
end HolidayRules
