import HolidayRules.Proofs.Feast.FeastYears

set_option autoImplicit false

/-!
# Easter of the Gregorian calendar

A second way to Easter Sunday counts in centuries and leaves the month and the day as quotient and
remainder of one number. From the first year of the Gregorian calendar on the western reckoning finds
the same day, which is a Sunday before any move back.
-/
namespace HolidayRules.Easter

/-- The days by which the moon has got ahead of its nineteen years, eight in 2500 years. -/
def moonLead (year : Int) : Int := (year / 100 - (year / 100 + 8) / 25 + 1) / 3

def gregorianMoon (year : Int) : Int :=
  (19 * (year % 19) + year / 100 - year / 100 / 4 - moonLead year + 15) % 30

def gregorianWait (year : Int) : Int :=
  (32 + 2 * (year / 100 % 4) + 2 * (year % 100 / 4) - gregorianMoon year - year % 100 % 4) % 7

/-- One in the years in which Easter would come a week too late, and else zero. -/
def gregorianException (year : Int) : Int :=
  (year % 19 + 11 * gregorianMoon year + 22 * gregorianWait year) / 451

/-- Counts the days so that March 1 is 93 and April 1 is 124, three and four times 31. -/
def gregorianCount (year : Int) : Int :=
  gregorianMoon year + gregorianWait year - 7 * gregorianException year + 114

def gregorianEaster (year : Int) : Ymd :=
  ⟨year, (gregorianCount year / 31).toNat, (gregorianCount year % 31).toNat + 1⟩

/-! ## The full moon and the Sunday after it -/

theorem solarCorrection_eq {year : Int} (h : 1500 < year) :
    solarCorrection year = year / 100 - year / 100 / 4 - 12 := by
  unfold solarCorrection
  by_cases hlate : 1600 ≤ year
  · rw [Int.tdiv_eq_ediv_of_nonneg (by omega), Int.tdiv_eq_ediv_of_nonneg (by omega)]
    omega
  · rw [show year - 1600 = -(1600 - year) by omega, Int.neg_tdiv, Int.neg_tdiv,
      Int.tdiv_eq_zero_of_lt (by omega) (by omega), Int.tdiv_eq_zero_of_lt (by omega) (by omega)]
    omega

theorem lunarCorrection_eq {year : Int} (h : 1400 ≤ year) :
    lunarCorrection year = moonLead year - 5 := by
  have hcentury : 0 ≤ (year - 1400) / 100 * 8 := by omega
  unfold lunarCorrection moonLead
  rw [Int.tdiv_eq_ediv_of_nonneg (show 0 ≤ year - 1400 by omega),
    Int.tdiv_eq_ediv_of_nonneg hcentury]
  omega

theorem meanFullMoon_western {year : Int} (h : 1500 < year) :
    meanFullMoon .western year = gregorianMoon year := by
  unfold meanFullMoon goldenNumber gregorianMoon
  dsimp only
  rw [solarCorrection_eq h, lunarCorrection_eq (by omega), Int.tmod_eq_emod_of_nonneg (by omega)]
  omega

theorem sundayShift_western {year : Int} (h : 0 ≤ year) :
    sundayShift .western year = (year + year / 4 - year / 100 + year / 400) % 7 := by
  unfold sundayShift
  dsimp only
  rw [Int.tdiv_eq_ediv_of_nonneg h, Int.tdiv_eq_ediv_of_nonneg h, Int.tdiv_eq_ediv_of_nonneg h]

theorem gregorianWait_eq {year : Int} (h : 0 ≤ year) :
    gregorianWait year = (4 - gregorianMoon year - sundayShift .western year) % 7 := by
  have hleap : year / 4 = 25 * (year / 100) + year % 100 / 4 := by omega
  have hcentury : year / 400 = year / 100 / 4 := by omega
  unfold gregorianWait
  rw [sundayShift_western h, hleap, hcentury]
  omega

theorem gregorianException_eq (year : Int) :
    gregorianException year =
      if gregorianWait year = 6 ∧
        (gregorianMoon year = 29 ∨ gregorianMoon year = 28 ∧ 11 ≤ year % 19) then 1 else 0 := by
  have hmoon : 0 ≤ gregorianMoon year ∧ gregorianMoon year < 30 :=
    ⟨Int.emod_nonneg _ (by decide), Int.emod_lt_of_pos _ (by decide)⟩
  have hwait : 0 ≤ gregorianWait year ∧ gregorianWait year < 7 :=
    ⟨Int.emod_nonneg _ (by decide), Int.emod_lt_of_pos _ (by decide)⟩
  unfold gregorianException
  split <;> omega

/-- A full moon that is brought forward leaves the Sunday after it as it is, unless the wait was six
days: then Easter comes a week earlier. -/
theorem daysAfterEquinox_western {year : Int} (h : 1500 < year) :
    daysAfterEquinox .western year = gregorianCount year - 113 := by
  have hyear : 0 ≤ year := by omega
  have hwait := gregorianWait_eq hyear
  have hgolden : goldenNumber year = year % 19 + 1 := by
    unfold goldenNumber
    rw [Int.tmod_eq_emod_of_nonneg hyear]
  unfold daysAfterEquinox fullMoon gregorianCount
  dsimp only
  rw [meanFullMoon_western h, hgolden, gregorianException_eq]
  generalize year % 19 = place
  generalize sundayShift .western year = shift at hwait ⊢
  split <;> split <;> omega

theorem westernEaster_emod_seven {year : Int} (h : 0 ≤ year) :
    (equinoxNumber year + daysAfterEquinox .western year) % 7 = 0 := by
  have hsunday := sundayShift_western h
  rw [equinoxNumber_eq]
  unfold daysAfterEquinox
  dsimp only
  omega

/-! ## The date -/

theorem gregorianCount_bounds {year : Int} (h : 1500 < year) :
    114 ≤ gregorianCount year ∧ gregorianCount year ≤ 148 := by
  have hb := daysAfterEquinox_bounds .western year
  rw [daysAfterEquinox_western h] at hb
  omega

theorem exists_gregorianEaster {year : Int} (h : 1500 < year ∧ year ≤ maxYear) :
    ∃ e : Date, e.toYmd = gregorianEaster year ∧
      e.number = equinoxNumber year + (gregorianCount year - 113) := by
  have hr : minYear ≤ year ∧ year ≤ maxYear := ⟨Int.le_trans (by decide) (Int.le_of_lt h.1), h.2⟩
  have hb := gregorianCount_bounds h.1
  have hday : 1 ≤ (gregorianCount year % 31).toNat + 1 ∧
      (gregorianCount year % 31).toNat + 1 ≤ 31 := by omega
  unfold equinoxNumber gregorianEaster
  by_cases hmarch : gregorianCount year < 124
  · obtain ⟨e, he, hn⟩ := YearMonth.exists_date (m := ⟨year, 3⟩)
      ⟨hr, show 1 ≤ 3 ∧ 3 ≤ 12 by decide⟩ ((gregorianCount year % 31).toNat + 1) hday
    dsimp only [YearMonth.firstNumber] at hn
    refine ⟨e, ?_, by omega⟩
    rw [he, show (gregorianCount year / 31).toNat = 3 by omega]
  · have hapril : (gregorianCount year % 31).toNat + 1 ≤ 30 := by omega
    have hm : daysBeforeMonth year 4 = daysBeforeMonth year 3 + 31 := rfl
    obtain ⟨e, he, hn⟩ := YearMonth.exists_date (m := ⟨year, 4⟩)
      ⟨hr, show 1 ≤ 4 ∧ 4 ≤ 12 by decide⟩ ((gregorianCount year % 31).toNat + 1)
      ⟨hday.1, hapril⟩
    dsimp only [YearMonth.firstNumber] at hn
    refine ⟨e, ?_, by omega⟩
    rw [he, show (gregorianCount year / 31).toNat = 4 by omega]

theorem gregorianEaster_bounds {year : Int} (h : 1500 < year) :
    (Ymd.mk year 3 22).atMost (gregorianEaster year) ∧
      (gregorianEaster year).atMost ⟨year, 4, 25⟩ := by
  have hb := gregorianCount_bounds h
  unfold Ymd.atMost gregorianEaster
  simp only [Int.lt_irrefl, decide_false, Bool.false_or, beq_self_eq_true, Bool.true_and,
    Bool.or_eq_true, Bool.and_eq_true, decide_eq_true_eq, beq_iff_eq]
  omega

theorem date?_of_sunday {rite : Rite} {year : Int} {start e : Date}
    (hstart : (equinox rite year).date? = some start)
    (he : start.daysLater? (daysAfterEquinox rite year) = some e) (hsunday : e.weekday = .sunday) :
    date? rite year = some e := by
  have hstay : e.daysLater? (-(Weekday.sunday.daysUntil e.weekday)) = some e := by
    rw [hsunday]
    exact Date.daysLater?_zero e
  unfold date?
  simp only [bind, hstart, Option.bind_some, he, hstay]

/-- From 1583 on the western Easter is the date of the computus in centuries, from March 22 to
April 25, and the days after the equinox lead to a Sunday by themselves. The orthodox reckoning is
the Julian one for every year from 0 on. -/
theorem western_is_gregorian_and_orthodox_is_julian :
    (∀ year, 1583 ≤ year → year ≤ maxYear →
      ∃ start e, (Ymd.mk year 3 21).date? = some start ∧
        start.daysLater? (daysAfterEquinox .western year) = some e ∧
        e.toYmd = gregorianEaster year ∧ e.weekday = .sunday ∧ date? .western year = some e ∧
        (Ymd.mk year 3 22).atMost e.toYmd ∧ e.toYmd.atMost ⟨year, 4, 25⟩) ∧
    ∀ year, 0 ≤ year → daysAfterEquinox .orthodox year = julianOffset year := by
  refine ⟨fun year hfirst hlast => ?_, fun year => daysAfterEquinox_orthodox⟩
  have hlate : 1500 < year := by omega
  obtain ⟨start, hstart, hequinox⟩ :=
    (exists_equinox ⟨Int.le_trans (by decide) hfirst, hlast⟩).1
  obtain ⟨e, he, hnumber⟩ := exists_gregorianEaster ⟨hlate, hlast⟩
  have hdays : start.daysLater? (daysAfterEquinox .western year) = some e := by
    rw [Date.daysLater?_eq_some_iff, daysAfterEquinox_western hlate, hequinox, hnumber]
  have hsunday : e.weekday = .sunday := by
    have hseven := westernEaster_emod_seven (show 0 ≤ year by omega)
    have hsix : ((Weekday.sunday.index : Nat) : Int) = 6 := rfl
    rw [daysAfterEquinox_western hlate, ← hnumber] at hseven
    rw [Date.weekday, Weekday.ofNumber_eq_iff, hsix]
    omega
  refine ⟨start, e, hstart, hdays, he, hsunday, date?_of_sunday hstart hdays hsunday, ?_⟩
  rw [he]
  exact gregorianEaster_bounds hlate

/-- In 1954 the full moon is brought forward and Easter comes a week earlier. -/
theorem western_1954_and_orthodox_1954 :
    gregorianException 1954 = 1 ∧
      (∃ start e, (Ymd.mk 1954 3 21).date? = some start ∧
        start.daysLater? (daysAfterEquinox .western 1954) = some e ∧
        e.toYmd = gregorianEaster 1954 ∧ e.weekday = .sunday ∧ date? .western 1954 = some e ∧
        (Ymd.mk 1954 3 22).atMost e.toYmd ∧ e.toYmd.atMost ⟨1954, 4, 25⟩) ∧
      gregorianEaster 1954 = ⟨1954, 4, 18⟩ ∧
      daysAfterEquinox .orthodox 1954 = julianOffset 1954 :=
  ⟨by decide, western_is_gregorian_and_orthodox_is_julian.1 1954 (by decide) (by decide), by decide,
    western_is_gregorian_and_orthodox_is_julian.2 1954 (by decide)⟩

end HolidayRules.Easter
