set_option autoImplicit false

/-!
# Text

Everything the library reads or writes is a list of characters. Positions in messages count the
bytes of the UTF-8 form, so `byteLength` is the measure of a piece of text.
-/
namespace HolidayRules

abbrev Text := List Char

namespace Text

def byteLength : Text → Nat
  | [] => 0
  | c :: t => c.utf8Size + byteLength t

@[simp] theorem byteLength_nil : byteLength [] = 0 := rfl

@[simp] theorem byteLength_cons (c : Char) (t : Text) :
    byteLength (c :: t) = c.utf8Size + byteLength t := rfl

@[simp] theorem byteLength_append (s t : Text) :
    byteLength (s ++ t) = byteLength s + byteLength t := by
  induction s with
  | nil => simp
  | cons c s ih => simp [ih, Nat.add_assoc]

/-- The first characters of a text that take so many bytes, unless the last byte is inside of one. -/
def takeBytes? : Nat → Text → Option Text
  | 0, _ => some []
  | _ + 1, [] => none
  | n + 1, c :: t => if c.utf8Size ≤ n + 1 then (takeBytes? (n + 1 - c.utf8Size) t).map (c :: ·) else none

/-- The order of a dictionary, in which characters stand by their code points. -/
def atMost : Text → Text → Bool
  | [], _ => true
  | _ :: _, [] => false
  | c :: s, d :: t => c.toNat < d.toNat || c = d && atMost s t

theorem atMost_iff_le {s t : Text} : atMost s t = true ↔ List.le s t := by
  induction s generalizing t with
  | nil => simp [atMost, List.le]
  | cons c s ih =>
    cases t with
    | nil => simp [atMost, List.le]
    | cons d t =>
      have hcons : List.le (c :: s) (d :: t) ↔ c < d ∨ c = d ∧ List.le s t :=
        List.cons_le_cons_iff
      rw [atMost, Bool.or_eq_true, Bool.and_eq_true, decide_eq_true_eq, decide_eq_true_eq, ih,
        hcons]
      exact Iff.rfl

/-- Only the letters A to Z have a lower case here. -/
def lower (t : Text) : Text := t.map Char.toLower

def sameIgnoringCase (s t : Text) : Bool := lower s == lower t

theorem sameIgnoringCase_iff {s t : Text} : s.sameIgnoringCase t = true ↔ lower s = lower t :=
  beq_iff_eq

def cut? (mark : Text) : Text → Option (Text × Text)
  | [] => none
  | c :: rest =>
    if mark.isPrefixOf (c :: rest) then some ([], (c :: rest).drop mark.length)
    else (cut? mark rest).map fun parts => (c :: parts.1, parts.2)

theorem eq_of_cut? {mark t before after : Text} (h : cut? mark t = some (before, after)) :
    t = before ++ mark ++ after := by
  induction t generalizing before with
  | nil => simp [cut?] at h
  | cons c rest ih =>
    unfold cut? at h
    split at h
    next hp =>
      obtain ⟨rfl, rfl⟩ : [] = before ∧ _ = after := by simpa using h
      obtain ⟨more, hm⟩ := List.isPrefixOf_iff_prefix.1 hp
      simp [← hm]
    next =>
      obtain ⟨parts, hc, he⟩ := Option.map_eq_some_iff.1 h
      obtain ⟨rfl, rfl⟩ : c :: parts.1 = before ∧ parts.2 = after := by simpa using he
      simp [ih hc]

end Text
end HolidayRules
