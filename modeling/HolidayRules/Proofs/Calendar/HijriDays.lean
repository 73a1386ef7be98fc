import HolidayRules.Calendar.Hijri

set_option autoImplicit false

/-!
# Days of the Hijri calendar

Years and months are spans of day numbers, one behind the other, and each of the divisions by which a
day is found picks the span that holds it. So numbering the days of the calendar and finding a day
from its number undo each other.
-/
namespace HolidayRules.HijriDate

def monthLength (year : Int) (month : Nat) : Nat :=
  if month % 2 = 1 ∨ month = 12 ∧ (11 * year + 14) % 30 < 11 then 30 else 29

def IsValid (d : HijriDate) : Prop :=
  (1 ≤ d.month ∧ d.month ≤ 12) ∧ 1 ≤ d.day ∧ d.day ≤ monthLength d.year d.month

instance (d : HijriDate) : Decidable d.IsValid :=
  inferInstanceAs (Decidable (_ ∧ _ ∧ _))

def Before (d e : HijriDate) : Prop :=
  d.year < e.year ∨ d.year = e.year ∧ (d.month < e.month ∨ d.month = e.month ∧ d.day < e.day)

def yearStart (year : Int) : Int := epoch + (year - 1) * 354 + (3 + 11 * year) / 30

def daysBeforeMonth (month : Int) : Int := 29 * (month - 1) + (6 * month - 1) / 11

theorem number_eq (d : HijriDate) :
    d.number = yearStart d.year + daysBeforeMonth d.month + d.day - 1 := by
  unfold number yearStart daysBeforeMonth
  omega

/-! ## The spans of years and months -/

theorem yearStart_mono {a b : Int} (h : a ≤ b) : yearStart a ≤ yearStart b := by
  unfold yearStart
  omega

theorem daysBeforeMonth_mono {a b : Int} (h : a ≤ b) : daysBeforeMonth a ≤ daysBeforeMonth b := by
  unfold daysBeforeMonth
  omega

theorem monthLength_bounds (year : Int) (month : Nat) :
    29 ≤ monthLength year month ∧ monthLength year month ≤ 30 := by
  unfold monthLength
  split <;> decide

theorem yearStart_succ (year : Int) :
    yearStart (year + 1) = yearStart year + daysBeforeMonth 12 + monthLength year 12 := by
  have h12 : daysBeforeMonth 12 = 325 := rfl
  have hnext : 3 + 11 * (year + 1) = 11 * year + 14 := by omega
  unfold yearStart monthLength
  rw [h12, hnext]
  split <;> omega

theorem daysBeforeMonth_succ (year : Int) {month : Nat} (h : 1 ≤ month ∧ month < 12) :
    daysBeforeMonth (month + 1) = daysBeforeMonth month + monthLength year month := by
  have hlength : monthLength year month = if month % 2 = 1 then 30 else 29 := by
    unfold monthLength
    simp only [show month ≠ 12 by omega, false_and, or_false]
  rw [hlength]
  match month, h with
  | 1, _ | 2, _ | 3, _ | 4, _ | 5, _ | 6, _ | 7, _ | 8, _ | 9, _ | 10, _ | 11, _ => rfl

/-- The last month alone ends with its year, and the formula for the others leaves room for it. -/
theorem month_end (year : Int) {month : Nat} (h : 1 ≤ month ∧ month ≤ 12) :
    daysBeforeMonth month + monthLength year month ≤ daysBeforeMonth (month + 1) ∧
      yearStart year + daysBeforeMonth month + monthLength year month ≤ yearStart (year + 1) := by
  have hyear := yearStart_succ year
  have hlength := monthLength_bounds year month
  by_cases h12 : month < 12
  · have hnext := daysBeforeMonth_succ year ⟨h.1, h12⟩
    have := daysBeforeMonth_mono (show (month + 1 : Int) ≤ 12 by omega)
    omega
  · obtain rfl : month = 12 := by omega
    have h12 : daysBeforeMonth 12 = 325 := rfl
    have h13 : daysBeforeMonth 13 = 355 := rfl
    have hcast : ((12 : Nat) : Int) = 12 := rfl
    rw [hcast, show (12 + 1 : Int) = 13 from rfl]
    omega

/-! ## Finding the span of a day -/

theorem span_eq {start : Int → Int} (hmono : ∀ a b, a ≤ b → start a ≤ start b) {a b n : Int}
    (ha : start a ≤ n ∧ n < start (a + 1)) (hb : start b ≤ n ∧ n < start (b + 1)) : a = b := by
  rcases Int.lt_trichotomy a b with h | h | h
  · have := hmono (a + 1) b h
    omega
  · exact h
  · have := hmono (b + 1) a h
    omega

theorem year_bounds (n : Int) :
    yearStart ((30 * (n - epoch) + 10646) / 10631) ≤ n ∧
      n < yearStart ((30 * (n - epoch) + 10646) / 10631 + 1) := by
  generalize hy : (30 * (n - epoch) + 10646) / 10631 = year
  unfold yearStart
  constructor <;> omega

theorem month_bounds (before : Int) :
    daysBeforeMonth ((11 * before + 330) / 325) ≤ before ∧
      before < daysBeforeMonth ((11 * before + 330) / 325 + 1) := by
  generalize hm : (11 * before + 330) / 325 = month
  unfold daysBeforeMonth
  constructor <;> omega

theorem exists_isValid (n : Int) : ∃ d : HijriDate, d.IsValid ∧ d.number = n := by
  have hn := year_bounds n
  generalize (30 * (n - epoch) + 10646) / 10631 = year at hn
  have hyear := yearStart_succ year
  have hlength := monthLength_bounds year 12
  have h12 : daysBeforeMonth 12 = 325 := rfl
  obtain ⟨before, rfl⟩ : ∃ before, n = yearStart year + before := ⟨n - yearStart year, by omega⟩
  have hb := month_bounds before
  obtain ⟨month, hm⟩ := Int.eq_ofNat_of_zero_le (show 0 ≤ (11 * before + 330) / 325 by omega)
  have hrange : 1 ≤ month ∧ month ≤ 12 := by omega
  rw [hm] at hb
  have hday : before - daysBeforeMonth month < monthLength year month := by
    by_cases hlast : month < 12
    · have := daysBeforeMonth_succ year ⟨hrange.1, hlast⟩
      omega
    · obtain rfl : month = 12 := by omega
      change before - daysBeforeMonth 12 < _
      omega
  refine ⟨⟨year, month, (before - daysBeforeMonth month + 1).toNat⟩, ⟨hrange, ?_⟩, ?_⟩
  · dsimp only
    omega
  · rw [number_eq]
    dsimp only
    omega

theorem number_bounds {d : HijriDate} (h : d.IsValid) :
    (yearStart d.year ≤ d.number ∧ d.number < yearStart (d.year + 1)) ∧
      daysBeforeMonth d.month ≤ d.number - yearStart d.year ∧
      d.number - yearStart d.year < daysBeforeMonth (d.month + 1) := by
  obtain ⟨hm, hday⟩ := h
  have hend := month_end d.year hm
  have hnumber := number_eq d
  have hfirst : daysBeforeMonth 1 = 0 := rfl
  have := daysBeforeMonth_mono (show (1 : Int) ≤ d.month by omega)
  omega

theorem ofNumber_number {d : HijriDate} (h : d.IsValid) : ofNumber d.number = d := by
  obtain ⟨hyear, hmonth⟩ := number_bounds h
  have hfirst : number ⟨d.year, 1, 1⟩ = yearStart d.year := by
    unfold number yearStart
    dsimp only
    omega
  have hy : (30 * (d.number - epoch) + 10646) / 10631 = d.year :=
    span_eq (fun _ _ => yearStart_mono) (year_bounds d.number) hyear
  have hm : (11 * (d.number - yearStart d.year) + 330) / 325 = d.month :=
    span_eq (fun _ _ => daysBeforeMonth_mono) (month_bounds _) hmonth
  have hday : (d.number - number ⟨d.year, d.month, 1⟩ + 1).toNat = d.day := by
    rw [number_eq d, number_eq]
    dsimp only
    omega
  unfold ofNumber
  dsimp only
  rw [hy, hfirst, hm, Int.toNat_natCast, hday]

theorem number_lt_of_before {d e : HijriDate} (hd : d.IsValid) (he : e.IsValid)
    (h : d.Before e) : d.number < e.number := by
  obtain ⟨hdy, hdm⟩ := number_bounds hd
  obtain ⟨hey, hem⟩ := number_bounds he
  rcases h with hyear | ⟨hyear, hmonth | ⟨hmonth, hday⟩⟩
  · have := yearStart_mono (show d.year + 1 ≤ e.year by omega)
    omega
  · have := daysBeforeMonth_mono (show (d.month + 1 : Int) ≤ e.month by omega)
    rw [hyear] at hdm
    omega
  · rw [number_eq, number_eq, hyear, hmonth]
    omega

/-- Each number is that of one valid date, which is found from it, and the numbers of the valid dates
grow in the order of the calendar. So a date of the Gregorian calendar comes back from its Hijri
date. -/
theorem ofNumber_inverts_number :
    (∀ n : Int, (ofNumber n).IsValid ∧ (ofNumber n).number = n) ∧
    (∀ d : HijriDate, d.IsValid → ofNumber d.number = d) ∧
    (∀ d e : HijriDate, d.IsValid → e.IsValid → d.Before e → d.number < e.number) ∧
    ∀ d : Date, (ofDate d).date? = some d := by
  have hinverse (n : Int) : (ofNumber n).IsValid ∧ (ofNumber n).number = n := by
    obtain ⟨d, hd, rfl⟩ := exists_isValid n
    rw [ofNumber_number hd]
    exact ⟨hd, rfl⟩
  refine ⟨hinverse, fun d => ofNumber_number, fun d e => number_lt_of_before, fun d => ?_⟩
  unfold date? ofDate
  rw [(hinverse d.number).2]
  exact Date.ofNumber?_number d

/-- The last day of the leap year 1439 is the day before the first of 1440. -/
theorem ofNumber_last_of_1439 :
    ofNumber (number ⟨1439, 12, 30⟩) = ⟨1439, 12, 30⟩ ∧
      number ⟨1439, 12, 30⟩ < number ⟨1440, 1, 1⟩ := by
  obtain ⟨-, hfound, hgrow, -⟩ := ofNumber_inverts_number
  exact ⟨hfound _ (by decide), hgrow _ _ (by decide) (by decide) (.inl (by decide))⟩

end HolidayRules.HijriDate
