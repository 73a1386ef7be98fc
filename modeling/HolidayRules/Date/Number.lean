import HolidayRules.Date.Basic

set_option autoImplicit false

/-!
# Day numbers

Days are numbered one by one; day 1 is the first of January of the year 1. `Date.number` counts the
days up to a date and `Date.ofNumber?` finds the date again, which fails outside the supported years.
The two undo each other: `ofNumber?_eq_some_iff` and `ofNumber?_isSome_iff` say what is found.
-/
namespace HolidayRules

def daysBeforeYear (year : Int) : Int :=
  365 * (year - 1) + (year - 1) / 4 - (year - 1) / 100 + (year - 1) / 400

def daysBeforeMonth (year : Int) : Nat → Nat
  | 0 => 0
  | 1 => 0
  | month + 2 => daysBeforeMonth year (month + 1) + monthLength year (month + 1)

/-- A first guess from the mean length of a year, moved by one where the guess is off. -/
def yearOfNumber (n : Int) : Int :=
  let guess := 400 * (n - 1) / 146097 + 1
  if n ≤ daysBeforeYear guess then guess - 1
  else if daysBeforeYear (guess + 1) < n then guess + 1
  else guess

/-- The month of the year that holds its `n`-th day: as many months as begin before that day ends. -/
def monthOfDay (year : Int) (n : Nat) : Nat :=
  (List.range' 1 12).countP fun month => daysBeforeMonth year month < n

namespace Date

def number (d : Date) : Int :=
  daysBeforeYear d.year + daysBeforeMonth d.year d.month + d.day

def ofNumber? (n : Int) : Option Date :=
  let year := yearOfNumber n
  let rest := (n - daysBeforeYear year).toNat
  let month := monthOfDay year rest
  Ymd.date? ⟨year, month, rest - daysBeforeMonth year month⟩

def daysLater? (d : Date) (days : Int) : Option Date := ofNumber? (d.number + days)

end Date

theorem daysBeforeYear_succ (y : Int) :
    daysBeforeYear (y + 1) = daysBeforeYear y + yearLength y := by
  unfold daysBeforeYear yearLength isLeap
  have h4 : (y + 1 - 1) / 4 = (y - 1) / 4 + (if y % 4 = 0 then 1 else 0) := by split <;> omega
  have h100 : (y + 1 - 1) / 100 = (y - 1) / 100 + (if y % 100 = 0 then 1 else 0) := by
    split <;> omega
  have h400 : (y + 1 - 1) / 400 = (y - 1) / 400 + (if y % 400 = 0 then 1 else 0) := by
    split <;> omega
  rw [h4, h100, h400]
  by_cases a : y % 4 = 0 <;> by_cases b : y % 100 = 0 <;> by_cases c : y % 400 = 0 <;>
    simp [a, b, c] <;> omega

theorem daysBeforeYear_mono {a b : Int} (h : a ≤ b) : daysBeforeYear a ≤ daysBeforeYear b := by
  unfold daysBeforeYear
  omega

theorem yearOfNumber_bounds (n : Int) :
    daysBeforeYear (yearOfNumber n) < n ∧ n ≤ daysBeforeYear (yearOfNumber n + 1) := by
  unfold yearOfNumber daysBeforeYear
  dsimp only
  generalize h : 400 * (n - 1) / 146097 = g
  split
  · constructor <;> omega
  · split <;> constructor <;> omega

theorem yearOfNumber_eq {y n : Int} (h : daysBeforeYear y < n ∧ n ≤ daysBeforeYear (y + 1)) :
    yearOfNumber n = y := by
  obtain ⟨hl, hu⟩ := yearOfNumber_bounds n
  by_cases ha : y < yearOfNumber n
  · have := daysBeforeYear_mono (a := y + 1) (b := yearOfNumber n) (by omega)
    omega
  · by_cases hb : yearOfNumber n < y
    · have := daysBeforeYear_mono (a := yearOfNumber n + 1) (b := y) (by omega)
      omega
    · omega

theorem daysBeforeMonth_succ (y : Int) {m : Nat} (h : 1 ≤ m) :
    daysBeforeMonth y (m + 1) = daysBeforeMonth y m + monthLength y m := by
  obtain ⟨k, rfl⟩ := Nat.exists_eq_add_of_le' h
  rfl

theorem daysBeforeMonth_mono (y : Int) {a b : Nat} (h : a ≤ b) :
    daysBeforeMonth y a ≤ daysBeforeMonth y b := by
  induction h with
  | refl => exact Nat.le_refl _
  | @step m _ ih =>
    cases m with
    | zero => simpa [daysBeforeMonth] using ih
    | succ k =>
      rw [daysBeforeMonth_succ y (by omega)]
      omega

theorem daysBeforeMonth_thirteen (y : Int) : daysBeforeMonth y 13 = yearLength y := by
  cases h : isLeap y <;> simp [daysBeforeMonth, monthLength, yearLength, h]

theorem monthOfDay_eq {y : Int} {m n : Nat} (hm : 1 ≤ m ∧ m ≤ 12)
    (hl : daysBeforeMonth y m < n) (hu : n ≤ daysBeforeMonth y (m + 1)) : monthOfDay y n = m := by
  have key : ∀ k : Nat, daysBeforeMonth y k < n ↔ k ≤ m := by
    intro k
    by_cases hk : k ≤ m
    · have := daysBeforeMonth_mono y hk
      omega
    · have := daysBeforeMonth_mono y (Nat.succ_le_of_lt (Nat.lt_of_not_le hk))
      have : n ≤ daysBeforeMonth y k := Nat.le_trans hu this
      omega
  unfold monthOfDay
  simp only [key]
  obtain ⟨h1, h12⟩ := hm
  match m, h1, h12 with
  | 1, _, _ | 2, _, _ | 3, _, _ | 4, _, _ | 5, _, _ | 6, _, _ | 7, _, _ | 8, _, _ | 9, _, _
  | 10, _, _ | 11, _, _ | 12, _, _ => rfl

theorem exists_month {y : Int} {n : Nat} (h1 : 1 ≤ n) (hn : n ≤ yearLength y) :
    ∃ m, (1 ≤ m ∧ m ≤ 12) ∧ daysBeforeMonth y m < n ∧ n ≤ daysBeforeMonth y (m + 1) := by
  have climb : ∀ k, n ≤ daysBeforeMonth y (k + 1) →
      ∃ m, (1 ≤ m ∧ m ≤ k) ∧ daysBeforeMonth y m < n ∧ n ≤ daysBeforeMonth y (m + 1) := by
    intro k
    induction k with
    | zero =>
      intro h
      simp [daysBeforeMonth] at h
      omega
    | succ k ih =>
      intro h
      by_cases hk : n ≤ daysBeforeMonth y (k + 1)
      · obtain ⟨m, hm, hb⟩ := ih hk
        exact ⟨m, ⟨hm.1, by omega⟩, hb⟩
      · exact ⟨k + 1, ⟨by omega, by omega⟩, by omega, h⟩
  exact climb 12 (by rw [daysBeforeMonth_thirteen]; exact hn)

namespace Date

theorem year_bounds (d : Date) :
    daysBeforeYear d.year < d.number ∧ d.number ≤ daysBeforeYear (d.year + 1) := by
  obtain ⟨_, ⟨hm, hm'⟩, hd, hd'⟩ := d.valid
  have := daysBeforeMonth_succ d.year hm
  have := daysBeforeMonth_mono d.year (show d.month + 1 ≤ 13 by omega)
  rw [daysBeforeMonth_thirteen] at this
  have := daysBeforeYear_succ d.year
  unfold number
  omega

theorem ofNumber?_number (d : Date) : ofNumber? d.number = some d := by
  have hy := yearOfNumber_eq d.year_bounds
  obtain ⟨_, hm, hd, hd'⟩ := d.valid
  have hr : (d.number - daysBeforeYear d.year).toNat = daysBeforeMonth d.year d.month + d.day := by
    unfold number
    omega
  have hs := daysBeforeMonth_succ d.year hm.1
  have hmonth := monthOfDay_eq (y := d.year) (n := daysBeforeMonth d.year d.month + d.day) hm
    (by omega) (by omega)
  unfold ofNumber?
  simp only [hy, hr, hmonth, Nat.add_sub_cancel_left]
  exact Ymd.date?_toYmd d

theorem number_of_ofNumber? {n : Int} {d : Date} (h : ofNumber? n = some d) : d.number = n := by
  obtain ⟨hl, hu⟩ := yearOfNumber_bounds n
  rw [daysBeforeYear_succ] at hu
  unfold ofNumber? at h
  dsimp only at h
  generalize hr : (n - daysBeforeYear (yearOfNumber n)).toNat = r at h
  obtain ⟨m, hm, hml, hmu⟩ := exists_month (y := yearOfNumber n) (n := r) (by omega) (by omega)
  rw [monthOfDay_eq hm hml hmu] at h
  have he := Ymd.date?_eq_some_iff.1 h
  unfold number
  rw [← he]
  dsimp only
  omega

theorem ofNumber?_eq_some_iff {n : Int} {d : Date} : ofNumber? n = some d ↔ d.number = n :=
  ⟨number_of_ofNumber?, fun h => h ▸ ofNumber?_number d⟩

theorem ofNumber?_isSome_iff {n : Int} :
    (ofNumber? n).isSome ↔ daysBeforeYear minYear < n ∧ n ≤ daysBeforeYear (maxYear + 1) := by
  obtain ⟨hl, hu⟩ := yearOfNumber_bounds n
  have hu' := hu
  rw [daysBeforeYear_succ] at hu
  generalize hr : (n - daysBeforeYear (yearOfNumber n)).toNat = r
  obtain ⟨m, hm, hml, hmu⟩ := exists_month (y := yearOfNumber n) (n := r) (by omega) (by omega)
  have hs := daysBeforeMonth_succ (yearOfNumber n) hm.1
  unfold ofNumber?
  dsimp only
  rw [hr, monthOfDay_eq hm hml hmu, Ymd.date?_isSome_iff]
  rw [hs] at hmu
  simp only [Ymd.Exists]
  constructor
  · rintro ⟨⟨h1, h2⟩, _⟩
    have := daysBeforeYear_mono h1
    have := daysBeforeYear_mono (show yearOfNumber n + 1 ≤ maxYear + 1 by omega)
    omega
  · intro ⟨h1, h2⟩
    refine ⟨⟨?_, ?_⟩, hm, by omega, by omega⟩
    · by_cases hc : minYear ≤ yearOfNumber n
      · exact hc
      · have := daysBeforeYear_mono (show yearOfNumber n + 1 ≤ minYear by omega)
        omega
    · by_cases hc : yearOfNumber n ≤ maxYear
      · exact hc
      · have := daysBeforeYear_mono (show maxYear + 1 ≤ yearOfNumber n by omega)
        omega

end Date

end HolidayRules
