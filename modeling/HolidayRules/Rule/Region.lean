import HolidayRules.Text.Basic

set_option autoImplicit false

/-!
# Regions

A region is a country of two or three letters with up to three subdivisions behind dashes, each of
one to eight letters or digits. It is kept as it is written; letters compare without their case.
-/
namespace HolidayRules

def isCountry (t : Text) : Bool := 2 ≤ t.length && t.length ≤ 3 && t.all Char.isAlpha

def isSubdivision (t : Text) : Bool := 1 ≤ t.length && t.length ≤ 8 && t.all Char.isAlphanum

def isRegion (t : Text) : Bool :=
  match t.splitOn '-' with
  | [] => false
  | country :: parts => isCountry country && parts.length ≤ 3 && parts.all isSubdivision

structure Region where
  text : Text
  valid : isRegion text = true
deriving DecidableEq, Repr

inductive RegionError where
  | invalid (t : Text)
deriving DecidableEq, Repr

def RegionError.message : RegionError → Text
  | invalid t => "region filter '".toList ++ t ++ "' is not like ISO 3166".toList

namespace Region

def parse (t : Text) : Except RegionError Region :=
  if h : isRegion t = true then .ok ⟨t, h⟩ else .error (.invalid t)

/-- Whether a text is an initial part of the region, as `DE` is of `de-by`. As many bytes of the
region are looked at as the text has. -/
def startsWith (r : Region) (t : Text) : Bool :=
  (r.text.takeBytes? t.byteLength).any fun start => start.sameIgnoringCase t

end Region
end HolidayRules
