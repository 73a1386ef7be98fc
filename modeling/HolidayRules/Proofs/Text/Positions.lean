import HolidayRules.Proofs.Text.Runs

set_option autoImplicit false

/-!
# Byte positions

A byte position of a text lies between two of its characters or inside of one. Only in the first case
there is a rest of the text that stands at the position.
-/
namespace HolidayRules.Text

/-- What stands at a byte position, unless it is inside of a character or behind the end. -/
def dropBytes? : Nat → Text → Option Text
  | 0, t => some t
  | _ + 1, [] => none
  | n + 1, c :: t => if c.utf8Size ≤ n + 1 then dropBytes? (n + 1 - c.utf8Size) t else none

theorem dropBytes?_zero (t : Text) : dropBytes? 0 t = some t := by
  cases t <;> rfl

theorem dropBytes?_cons_add (c : Char) (n : Nat) (t : Text) :
    dropBytes? (c.utf8Size + n) (c :: t) = dropBytes? n t := by
  obtain ⟨size, hsize⟩ := Nat.exists_eq_succ_of_ne_zero (Nat.ne_of_gt c.utf8Size_pos)
  rw [hsize, Nat.succ_add, dropBytes?, hsize, if_pos (by omega)]
  congr 1
  omega

theorem dropBytes?_append (before rest : Text) :
    dropBytes? before.byteLength (before ++ rest) = some rest := by
  induction before with
  | nil => exact dropBytes?_zero rest
  | cons c before ih => rw [List.cons_append, byteLength_cons, dropBytes?_cons_add, ih]

theorem dropBytes?_eq_some_iff {n : Nat} {t rest : Text} :
    dropBytes? n t = some rest ↔ ∃ before, t = before ++ rest ∧ before.byteLength = n := by
  constructor
  · intro h
    induction t generalizing n with
    | nil =>
      cases n with
      | zero =>
        cases h
        exact ⟨[], rfl, rfl⟩
      | succ n => cases h
    | cons c t ih =>
      cases n with
      | zero =>
        cases h
        exact ⟨[], rfl, rfl⟩
      | succ n =>
        rw [dropBytes?] at h
        split at h
        next hsize =>
          obtain ⟨before, rfl, hbytes⟩ := ih h
          refine ⟨c :: before, rfl, ?_⟩
          rw [byteLength_cons]
          omega
        next => cases h
  · rintro ⟨before, rfl, rfl⟩
    exact dropBytes?_append before rest

theorem dropBytes?_add {n : Nat} {t part rest : Text} (h : t.dropBytes? n = some (part ++ rest)) :
    t.dropBytes? (n + part.byteLength) = some rest := by
  obtain ⟨before, rfl, rfl⟩ := dropBytes?_eq_some_iff.1 h
  rw [← List.append_assoc, ← byteLength_append]
  exact dropBytes?_append _ rest

theorem dropBytes?_cons {n : Nat} {c : Char} {t rest : Text} (h : t.dropBytes? n = some (c :: rest)) :
    t.dropBytes? (n + c.utf8Size) = some rest :=
  dropBytes?_add (show t.dropBytes? n = some ([c] ++ rest) from h)

/-! ## Finding a text at a position -/

/-- At the byte position the text goes on with `found`, but for the case of letters. -/
def hasAt (t : Text) (position : Nat) (found : Text) : Bool :=
  (t.dropBytes? position).any fun rest => sameIgnoringCase (rest.take found.length) found

def indentAt (t : Text) (position : Nat) : Nat := (t.dropBytes? position).elim 0 indent

theorem hasAt_iff {t found : Text} {position : Nat} :
    t.hasAt position found = true ↔ ∃ here rest, t.dropBytes? position = some (here ++ rest) ∧
      here.sameIgnoringCase found = true := by
  unfold hasAt
  rw [Option.any_eq_true]
  constructor
  · rintro ⟨rest, hrest, hsame⟩
    exact ⟨rest.take found.length, rest.drop found.length,
      by rw [List.take_append_drop, hrest], hsame⟩
  · rintro ⟨here, rest, hplace, hsame⟩
    have hlength := congrArg List.length (sameIgnoringCase_iff.1 hsame)
    rw [lower, lower, List.length_map, List.length_map] at hlength
    refine ⟨here ++ rest, hplace, ?_⟩
    rwa [← hlength, List.take_left]

theorem hasAt_add {n p : Nat} {t part rest found : Text}
    (h : t.dropBytes? n = some (part ++ rest)) (hfound : part.hasAt p found = true) :
    t.hasAt (n + p) found = true := by
  obtain ⟨here, more, hpart, hsame⟩ := hasAt_iff.1 hfound
  obtain ⟨before, rfl, rfl⟩ := dropBytes?_eq_some_iff.1 hpart
  refine hasAt_iff.2 ⟨here, more ++ rest, ?_, hsame⟩
  rw [List.append_assoc] at h
  rw [dropBytes?_add h, List.append_assoc]

theorem indent_append {blanks rest : Text} (hblanks : ∀ c ∈ blanks, isBlank c = true)
    (hrest : ∀ c ∈ rest.head?, isBlank c = false) :
    (blanks ++ rest).indent = blanks.byteLength := by
  unfold indent
  rw [takeWhile_run hblanks hrest]

end HolidayRules.Text
