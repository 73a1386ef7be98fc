import Mathlib.Algebra.Group.Nat.Defs
import HolidayRules.Text.Decimal

set_option autoImplicit false

/-!
# Padded numerals

Among the runs of digits of one length no two have the same value. A padded numeral is therefore the
run of digits that it was read from.
-/
namespace HolidayRules.Decimal

theorem value_cons (c : Char) (t : Text) :
    value (c :: t) = 10 ^ t.length * (c.toNat - '0'.toNat) + value t := by
  unfold value
  rw [Nat.ofDigitChars_cons, Nat.mul_zero, Nat.zero_add, Nat.ofDigitChars_eq_ofDigitChars_zero]

theorem toNat_of_isDigit {c : Char} (h : c.isDigit = true) : '0'.toNat ≤ c.toNat ∧ c.toNat ≤ 57 := by
  unfold Char.isDigit at h
  simp only [Bool.and_eq_true, decide_eq_true_eq, ge_iff_le] at h
  exact h

theorem value_lt {t : Text} (h : ∀ c ∈ t, c.isDigit = true) : value t < 10 ^ t.length := by
  induction t with
  | nil => decide
  | cons c t ih =>
    have hc := toNat_of_isDigit (h c List.mem_cons_self)
    have ht := ih fun d hd => h d (List.mem_cons_of_mem c hd)
    have hz : '0'.toNat = 48 := rfl
    have hm : 10 ^ t.length * (c.toNat - '0'.toNat) ≤ 10 ^ t.length * 9 :=
      Nat.mul_le_mul_left _ (by omega)
    rw [value_cons, List.length_cons, Nat.pow_succ]
    omega

theorem value_injective {s t : Text} (hl : s.length = t.length) (hs : ∀ c ∈ s, c.isDigit = true)
    (ht : ∀ c ∈ t, c.isDigit = true) (h : value s = value t) : s = t := by
  induction s generalizing t with
  | nil =>
    rw [List.length_nil] at hl
    exact (List.eq_nil_of_length_eq_zero hl.symm).symm
  | cons c s ih =>
    cases t with
    | nil => cases hl
    | cons d t =>
      have hlen : s.length = t.length := Nat.succ.inj hl
      have hc := toNat_of_isDigit (hs c List.mem_cons_self)
      have hd := toNat_of_isDigit (ht d List.mem_cons_self)
      have hs' : ∀ c ∈ s, c.isDigit = true := fun e he => hs e (List.mem_cons_of_mem c he)
      have ht' : ∀ c ∈ t, c.isDigit = true := fun e he => ht e (List.mem_cons_of_mem d he)
      have hvs := value_lt hs'
      have hvt := value_lt ht'
      rw [value_cons, value_cons, hlen] at h
      rw [hlen] at hvs
      have hdiv := congrArg (· / 10 ^ t.length) h
      have hmod := congrArg (· % 10 ^ t.length) h
      have hpos : 0 < 10 ^ t.length := Nat.pow_pos (by decide)
      simp only [Nat.mul_add_div hpos, Nat.div_eq_of_lt hvs, Nat.div_eq_of_lt hvt,
        Nat.add_zero] at hdiv
      simp only [Nat.mul_add_mod, Nat.mod_eq_of_lt hvs, Nat.mod_eq_of_lt hvt] at hmod
      have hcd : c = d := Char.toNat_inj.1 (by omega)
      rw [hcd, ih hlen hs' ht' hmod]

theorem isDigit_paddedNatural (width n : Nat) : ∀ c ∈ paddedNatural width n, c.isDigit = true := by
  intro c hc
  unfold paddedNatural List.leftpad at hc
  rcases List.mem_append.1 hc with h | h
  · rw [List.eq_of_mem_replicate h]
    rfl
  · exact Nat.isDigit_of_mem_toDigits (by decide) (by decide) h

@[simp] theorem value_paddedNatural (width n : Nat) : value (paddedNatural width n) = n := by
  unfold paddedNatural List.leftpad value natural
  rw [Nat.ofDigitChars_append, Nat.ofDigitChars_replicate_zero, Nat.mul_zero]
  exact value_natural n

theorem length_paddedNatural {width n : Nat} (hw : 0 < width) (h : n < 10 ^ width) :
    (paddedNatural width n).length = width := by
  unfold paddedNatural
  rw [List.length_leftpad]
  exact Nat.max_eq_left ((Nat.length_toDigits_le_iff (by decide) hw).2 h)

theorem paddedNatural_value {t : Text} (hne : t ≠ []) (h : ∀ c ∈ t, c.isDigit = true) :
    paddedNatural t.length (value t) = t :=
  value_injective (length_paddedNatural (List.length_pos_iff.2 hne) (value_lt h))
    (isDigit_paddedNatural _ _) h (value_paddedNatural _ _)

theorem fourDigits?_eq_some_iff {t : Text} {n : Nat} :
    fourDigits? t = some n ↔ t.length = 4 ∧ (∀ c ∈ t, c.isDigit = true) ∧ value t = n := by
  unfold fourDigits?
  split
  next h =>
    rw [Bool.and_eq_true, decide_eq_true_eq, List.all_eq_true] at h
    rw [Option.some.injEq]
    exact ⟨fun hn => ⟨h.1, h.2, hn⟩, fun hn => hn.2.2⟩
  next h =>
    rw [Bool.and_eq_true, decide_eq_true_eq, List.all_eq_true] at h
    constructor
    · intro hn
      cases hn
    · rintro ⟨hlength, hdigits, -⟩
      exact absurd ⟨hlength, hdigits⟩ h

theorem paddedNatural_of_fourDigits? {t : Text} {n : Nat} (h : fourDigits? t = some n) :
    paddedNatural 4 n = t := by
  obtain ⟨hlength, hdigits, rfl⟩ := fourDigits?_eq_some_iff.1 h
  have hne : t ≠ [] := by
    rintro rfl
    cases hlength
  rw [← hlength]
  exact paddedNatural_value hne hdigits

end HolidayRules.Decimal
