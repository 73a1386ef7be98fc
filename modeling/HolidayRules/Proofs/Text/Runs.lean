import HolidayRules.Proofs.Text.Numerals
import HolidayRules.Text.Blank

set_option autoImplicit false

/-!
# Runs of characters

A run of characters of one class ends where a character of another class follows. Digits, letters and
signs are not blank.
-/
namespace HolidayRules

theorem isBlank_eq_false {c : Char} (h : 0x20 < c.toNat ∧ c.toNat < 0x85) : isBlank c = false := by
  simp only [isBlank, blankRanges, List.any_cons, List.any_nil, Bool.or_eq_false_iff,
    Bool.and_eq_false_iff, decide_eq_false_iff_not, and_true]
  omega

theorem toNat_of_isAlpha {c : Char} (h : c.isAlpha = true) : 65 ≤ c.toNat ∧ c.toNat ≤ 122 := by
  unfold Char.isAlpha Char.isUpper Char.isLower at h
  simp only [Bool.or_eq_true, Bool.and_eq_true, decide_eq_true_eq, ge_iff_le] at h
  rcases h with ⟨hl, hu⟩ | ⟨hl, hu⟩
  · exact ⟨hl, Nat.le_trans hu (by decide)⟩
  · exact ⟨Nat.le_trans (by decide) hl, hu⟩

theorem isBlank_of_isAlpha {c : Char} (h : c.isAlpha = true) : isBlank c = false := by
  obtain ⟨hlow, hhigh⟩ := toNat_of_isAlpha h
  exact isBlank_eq_false ⟨by omega, by omega⟩

theorem isAlpha_of_toLower {c : Char} (h : c.toLower.isAlpha = true) : c.isAlpha = true := by
  unfold Char.toLower at h
  split at h
  next hu =>
    unfold Char.isAlpha Char.isUpper
    rw [decide_eq_true hu, Bool.true_or]
  next => exact h

theorem toLower_toLower (c : Char) : c.toLower.toLower = c.toLower := by
  unfold Char.toLower
  split
  next h =>
    have hlower : 65 ≤ c.toNat := UInt32.le_iff_toNat_le.1 h.1
    have hupper : c.toNat ≤ 90 := UInt32.le_iff_toNat_le.1 h.2
    rw [dif_neg]
    rintro ⟨-, hagain⟩
    have hsum := UInt32.le_iff_toNat_le.1 hagain
    have hshift : ('a'.val - 'A'.val).toNat = 32 := rfl
    have hbound : 'Z'.val.toNat = 90 := rfl
    rw [UInt32.toNat_add] at hsum
    change (c.toNat + _) % _ ≤ _ at hsum
    omega
  next => rfl

namespace Text

theorem lower_lower (t : Text) : lower (lower t) = lower t := by
  unfold lower
  rw [List.map_map]
  exact List.map_congr_left fun c _ => toLower_toLower c

def StopsRun (p : Char → Bool) (rest : Text) : Prop := ∀ c ∈ rest.head?, p c = false

theorem takeWhile_run {p : Char → Bool} {run rest : Text} (hrun : ∀ c ∈ run, p c = true)
    (hrest : StopsRun p rest) : (run ++ rest).takeWhile p = run := by
  rw [List.takeWhile_append_of_pos hrun]
  cases rest with
  | nil => simp
  | cons c rest => simp [hrest c rfl]

theorem stopsRun_nil (p : Char → Bool) : StopsRun p [] := by
  intro d hd
  cases hd

theorem stopsRun_cons {p : Char → Bool} {c : Char} (h : p c = false) (rest : Text) :
    StopsRun p (c :: rest) := by
  intro d hd
  cases hd
  exact h

end Text
end HolidayRules
