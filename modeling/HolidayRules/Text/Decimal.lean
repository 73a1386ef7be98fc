import HolidayRules.Text.Basic

set_option autoImplicit false

/-!
# Decimal numerals

Reading a run of digits and writing a number, plain or padded with zeros to a least width.
-/
namespace HolidayRules.Decimal

def value (digits : Text) : Nat := Nat.ofDigitChars 10 digits 0

def natural (n : Nat) : Text := Nat.toDigits 10 n

@[simp] theorem value_natural (n : Nat) : value (natural n) = n :=
  Nat.ofDigitChars_toDigits (by decide) (by decide)

def integer : Int → Text
  | .ofNat n => natural n
  | .negSucc n => '-' :: natural (n + 1)

def paddedNatural (width n : Nat) : Text := (natural n).leftpad width '0'

/-- The sign counts towards the width. -/
def padded (width : Nat) : Int → Text
  | .ofNat n => paddedNatural width n
  | .negSucc n => '-' :: paddedNatural (width - 1) (n + 1)

def fourDigits? (t : Text) : Option Nat :=
  if t.length = 4 && t.all Char.isDigit then some (value t) else none

end HolidayRules.Decimal
