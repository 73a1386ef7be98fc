set_option autoImplicit false

/-!
# Kinds of holidays

A set of kinds is a word of sixteen bits. A rule has one kind; a selection joins several.
-/
namespace HolidayRules

structure Kinds where
  bits : UInt16
deriving DecidableEq, Repr

namespace Kinds

def official : Kinds := ⟨1⟩

def bank : Kinds := ⟨2⟩

/-- Kept, but not a day off. -/
def observed : Kinds := ⟨4⟩

def other : Kinds := ⟨8⟩

def custom4 : Kinds := ⟨16⟩

def custom5 : Kinds := ⟨32⟩

def custom6 : Kinds := ⟨64⟩

def all : Kinds := ⟨0x7FFF⟩

def named : List Kinds := [official, bank, observed, other, custom4, custom5, custom6, all]

def union (a b : Kinds) : Kinds := ⟨a.bits ||| b.bits⟩

def meets (a b : Kinds) : Bool := a.bits &&& b.bits != 0

end Kinds
end HolidayRules
