import HolidayRules.Feast.Easter
import HolidayRules.Proofs.Date.Months

set_option autoImplicit false

/-!
# Easter of the Julian calendar

The orthodox reckoning finds the Julian Easter Sunday for every year from 0 on. Its Gregorian date is
exact as long as the calendars are at most thirteen days apart; with each further week of distance
it falls one week earlier.
-/
namespace HolidayRules.Easter

def julianMoon (year : Int) : Int := (19 * (year % 19) + 15) % 30

def julianOffset (year : Int) : Int :=
  julianMoon year + (2 * (year % 4) + 4 * (year % 7) - julianMoon year + 6) % 7 + 1

/-- The days between the two calendars from March of the year on. -/
def calendarGap (year : Int) : Int := year / 100 - year / 400 - 2

def equinoxNumber (year : Int) : Int := daysBeforeYear year + daysBeforeMonth year 3 + 21

def julianEaster? (year : Int) : Option Date :=
  (Ymd.date? ⟨year, 3, 21⟩).bind fun d => d.daysLater? (julianOffset year + calendarGap year)

theorem fullMoon_orthodox {year : Int} (h : 0 ≤ year) : fullMoon .orthodox year = julianMoon year := by
  unfold fullMoon meanFullMoon goldenNumber julianMoon
  dsimp only
  rw [Int.tmod_eq_emod_of_nonneg h]
  split <;> omega

theorem daysAfterEquinox_orthodox {year : Int} (h : 0 ≤ year) :
    daysAfterEquinox .orthodox year = julianOffset year := by
  unfold daysAfterEquinox sundayShift julianOffset
  dsimp only
  rw [fullMoon_orthodox h, Int.tdiv_eq_ediv_of_nonneg h]
  omega

theorem julianOffset_bounds (year : Int) : 1 ≤ julianOffset year ∧ julianOffset year ≤ 36 := by
  unfold julianOffset julianMoon
  omega

theorem daysBeforeMonth_march (year : Int) : daysBeforeMonth year 3 + 306 = yearLength year := by
  cases h : isLeap year <;> simp [daysBeforeMonth, monthLength, yearLength, h]

theorem equinoxNumber_eq (year : Int) :
    equinoxNumber year = 365 * year + year / 4 - year / 100 + year / 400 - 285 := by
  have hs := daysBeforeYear_succ year
  have hm := daysBeforeMonth_march year
  have hy : daysBeforeYear (year + 1) = 365 * year + year / 4 - year / 100 + year / 400 := by
    unfold daysBeforeYear
    rw [Int.add_sub_cancel]
  unfold equinoxNumber
  omega

theorem julianEaster_emod_seven (year : Int) :
    (equinoxNumber year + julianOffset year + calendarGap year) % 7 = 0 := by
  rw [equinoxNumber_eq]
  unfold julianOffset calendarGap
  omega

theorem daysUntil_sunday (n : Int) : (Weekday.sunday.daysUntil (.ofNumber n) : Int) = n % 7 := by
  have hn := Weekday.index_ofNumber n
  have hs : Weekday.sunday.index = 6 := rfl
  unfold Weekday.daysUntil
  omega

theorem exists_equinox {year : Int} (h : minYear ≤ year ∧ year ≤ maxYear) :
    (∃ d, (equinox .western year).date? = some d ∧ d.number = equinoxNumber year) ∧
      ∃ d, (equinox .orthodox year).date? = some d ∧ d.number = equinoxNumber year + 13 := by
  have hm : daysBeforeMonth year 4 = daysBeforeMonth year 3 + 31 := rfl
  unfold equinoxNumber
  constructor
  · obtain ⟨d, hd, hn⟩ := YearMonth.exists_date (m := ⟨year, 3⟩)
      ⟨h, show 1 ≤ 3 ∧ 3 ≤ 12 by decide⟩ 21 (show 1 ≤ 21 ∧ 21 ≤ 31 by decide)
    dsimp only [YearMonth.firstNumber] at hn
    exact ⟨d, Ymd.date?_eq_some_iff.2 hd.symm, by omega⟩
  · obtain ⟨d, hd, hn⟩ := YearMonth.exists_date (m := ⟨year, 4⟩)
      ⟨h, show 1 ≤ 4 ∧ 4 ≤ 12 by decide⟩ 3 (show 1 ≤ 3 ∧ 3 ≤ 30 by decide)
    dsimp only [YearMonth.firstNumber] at hn
    exact ⟨d, Ymd.date?_eq_some_iff.2 hd.symm, by omega⟩

theorem exists_number_near_equinox {year : Int} (h : minYear ≤ year ∧ year ≤ maxYear) (days : Int)
    (hd : 0 ≤ days ∧ days ≤ 180) : ∃ d : Date, d.number = equinoxNumber year + days := by
  have hs := daysBeforeYear_succ year
  have hm := daysBeforeMonth_march year
  have hl : yearLength year = 365 ∨ yearLength year = 366 := by
    unfold yearLength
    split <;> simp
  unfold equinoxNumber
  exact Date.exists_number_eq h (by omega) (by omega)

/-- Easter is counted from the thirteenth day after the Gregorian equinox and moved back to a
Sunday. -/
theorem exists_orthodox {year : Int} (h : 0 ≤ year ∧ year ≤ maxYear) :
    ∃ d, date? .orthodox year = some d ∧
      d.number = equinoxNumber year + 13 + julianOffset year -
        (equinoxNumber year + 13 + julianOffset year) % 7 := by
  have hr : minYear ≤ year ∧ year ≤ maxYear := ⟨Int.le_trans (by decide) h.1, h.2⟩
  have hb := julianOffset_bounds year
  obtain ⟨s, hs, hnum⟩ := (exists_equinox hr).2
  obtain ⟨e, he⟩ := exists_number_near_equinox hr (13 + julianOffset year) ⟨by omega, by omega⟩
  obtain ⟨d, hd⟩ := exists_number_near_equinox hr
    (13 + julianOffset year - (equinoxNumber year + 13 + julianOffset year) % 7)
    ⟨by omega, by omega⟩
  have hfull : s.daysLater? (daysAfterEquinox .orthodox year) = some e := by
    rw [Date.daysLater?_eq_some_iff, daysAfterEquinox_orthodox h.1, hnum]
    omega
  have hback : e.daysLater? (-(Weekday.sunday.daysUntil e.weekday)) = some d := by
    rw [Date.daysLater?_eq_some_iff, Date.weekday, daysUntil_sunday, he, hd]
    omega
  refine ⟨d, ?_, by omega⟩
  unfold date?
  simp only [bind, hs, Option.bind_some, hfull, hback]

theorem exists_orthodox_weeks {year : Int} (h : 0 ≤ year ∧ year ≤ maxYear) :
    ∃ d, date? .orthodox year = some d ∧
      d.number = equinoxNumber year + julianOffset year + calendarGap year -
        7 * ((calendarGap year - 7) / 7) := by
  have hs := julianEaster_emod_seven year
  obtain ⟨d, hd, hn⟩ := exists_orthodox h
  exact ⟨d, hd, by omega⟩

theorem julianEaster?_eq_some_iff {year : Int} (h : minYear ≤ year ∧ year ≤ maxYear) {d : Date} :
    julianEaster? year = some d ↔
      d.number = equinoxNumber year + julianOffset year + calendarGap year := by
  obtain ⟨s, hs, hnum⟩ := (exists_equinox h).1
  unfold julianEaster?
  rw [show (Ymd.mk year 3 21).date? = some s from hs, Option.bind_some,
    Date.daysLater?_eq_some_iff, hnum]
  omega

/-- The orthodox date is the Julian Easter through the year 2099, and later a number of weeks too
early. -/
theorem date?_orthodox_eq_iff {year : Int} (h : 1583 ≤ year ∧ year ≤ maxYear) :
    (date? .orthodox year = julianEaster? year ↔ year ≤ 2099) ∧
      ∃ d, date? .orthodox year = some d ∧ d.weekday = .sunday ∧
        d.number = equinoxNumber year + julianOffset year + calendarGap year -
          7 * ((calendarGap year - 7) / 7) := by
  have hr : minYear ≤ year ∧ year ≤ maxYear := ⟨Int.le_trans (by decide) h.1, h.2⟩
  have hs := julianEaster_emod_seven year
  obtain ⟨d, hd, hn⟩ := exists_orthodox_weeks ⟨Int.le_trans (by decide) h.1, h.2⟩
  have hgap : (calendarGap year - 7) / 7 = 0 ↔ year ≤ 2099 := by
    unfold calendarGap
    omega
  refine ⟨?_, d, hd, ?_, hn⟩
  · rw [hd, ← hgap, eq_comm, julianEaster?_eq_some_iff hr]
    omega
  · rw [Date.weekday, Weekday.ofNumber_eq_iff, show ((Weekday.sunday.index : Nat) : Int) = 6 from rfl]
    omega

theorem date?_orthodox_2099 :
    (1583 ≤ (2099 : Int) ∧ 2099 ≤ maxYear) ∧ date? .orthodox 2099 = julianEaster? 2099 :=
  ⟨by decide, (date?_orthodox_eq_iff (by decide)).1.2 (by decide)⟩

/-- The calendars are fourteen days apart from 2100 on, and the date is a week too early. -/
theorem date?_orthodox_2100 : (1583 ≤ (2100 : Int) ∧ 2100 ≤ maxYear) ∧
    date? .orthodox 2100 = some ⟨⟨2100, 4, 25⟩, by decide⟩ ∧
    julianEaster? 2100 = some ⟨⟨2100, 5, 2⟩, by decide⟩ ∧
    date? .orthodox 2100 ≠ julianEaster? 2100 := by
  decide

end HolidayRules.Easter
