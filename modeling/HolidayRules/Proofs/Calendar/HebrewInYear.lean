import HolidayRules.Proofs.Calendar.HebrewDays

set_option autoImplicit false

/-!
# Hebrew days in a Gregorian year

The Hebrew calendar gains about four days in a thousand years on the Gregorian one. In the years of four
digits its new year has not come to the Gregorian one, and a Gregorian year meets two Hebrew years only.
A month and a day may fall into it twice or never.
-/
namespace HolidayRules.Hebrew

theorem yearStart_bounds (year : Int) :
    epoch + moonDay year ≤ yearStart year ∧ yearStart year ≤ epoch + moonDay year + 3 := by
  have hconjunction := conjunctionDay_cases year
  have hdelay : 0 ≤ lengthDelay year ∧ lengthDelay year ≤ 2 := by
    unfold lengthDelay
    omega
  unfold yearStart
  omega

theorem moonDay_bounds (year : Int) :
    25920 * moonDay year ≤ 765433 * monthsBefore year + 12084 ∧
      765433 * monthsBefore year + 12084 < 25920 * (moonDay year + 1) := by
  have htime := moonTime_bounds year
  have hparts := conjunctionParts_eq year
  unfold conjunctionParts at hparts
  omega

theorem yearStart_le_of_fourDigits {year : Int} (h : HasFourDigits year) :
    yearStart (year + 3760) ≤ daysBeforeYear year + 1 := by
  have hstart := yearStart_bounds (year + 3760)
  have hmoon := moonDay_bounds (year + 3760)
  unfold HasFourDigits at h
  unfold monthsBefore at hmoon
  unfold epoch at hstart
  unfold daysBeforeYear
  omega

theorem lt_yearStart_of_fourDigits {year : Int} (h : HasFourDigits year) :
    daysBeforeYear (year + 1) < yearStart (year + 3762) := by
  have hstart := yearStart_bounds (year + 3762)
  have hmoon := moonDay_bounds (year + 3762)
  unfold HasFourDigits at h
  unfold monthsBefore at hmoon
  unfold epoch at hstart
  unfold daysBeforeYear
  omega

theorem mem_yearsAround_of_date? {year hebrewYear : Int} (h : HasFourDigits year) {month day : Nat}
    {f : Date} (hf : date? hebrewYear month day = some f) (hyear : f.year = year) :
    hebrewYear ∈ yearsAround year := by
  obtain ⟨d, -, rfl, -, hnumber⟩ := exists_day_of_date? hf
  have hd := d.number_bounds
  have hbounds := f.year_bounds
  have hfirst := yearStart_le_of_fourDigits h
  have hlast := lt_yearStart_of_fourDigits h
  rw [hyear, ← hnumber] at hbounds
  have hlow : ¬ d.year + 1 ≤ year + 3760 := by
    intro hle
    have hmono := yearStart_strictMono.monotone hle
    omega
  have hhigh : ¬ year + 3762 ≤ d.year := by
    intro hle
    have hmono := yearStart_strictMono.monotone hle
    omega
  unfold yearsAround
  simp only [List.mem_cons, List.not_mem_nil, or_false]
  omega

theorem ascending_yearsAround (year : Int) (month day : Nat) :
    ((yearsAround year).filterMap fun hebrewYear => date? hebrewYear month day).Pairwise
      fun d f => d.number < f.number := by
  have hyears : (yearsAround year).Pairwise (· < ·) := by simp [yearsAround]
  exact hyears.filterMap _ fun a b hlt d hd f hf => number_lt_of_date? hd hf (.inl hlt)

/-- In a year of four digits the earliest date is found on which the month and the day fall in any
Hebrew year at all, and none is found only if there is none. -/
theorem inYear?_isEarliest {year : Int} (h : HasFourDigits year) (month day : Nat) :
    (∀ e, inYear? year month day = some e ↔ Date.IsEarliest
      (fun f => f.year = year ∧ ∃ hebrewYear, date? hebrewYear month day = some f) e) ∧
    (inYear? year month day = none ↔
      ∀ hebrewYear f, date? hebrewYear month day = some f → f.year ≠ year) := by
  have hmem (f : Date) : (f ∈ (yearsAround year).filterMap (fun y => date? y month day) ∧
      decide (f.year = year) = true) ↔
        f.year = year ∧ ∃ hebrewYear, date? hebrewYear month day = some f := by
    rw [List.mem_filterMap, decide_eq_true_eq]
    constructor
    · rintro ⟨⟨y, -, hf⟩, hyear⟩
      exact ⟨hyear, y, hf⟩
    · rintro ⟨hyear, y, hf⟩
      exact ⟨⟨y, mem_yearsAround_of_date? h hf hyear, hf⟩, hyear⟩
  unfold inYear?
  constructor
  · intro e
    rw [Date.find?_eq_some_iff_isEarliest (ascending_yearsAround year month day)]
    unfold Date.IsEarliest
    simp only [hmem]
  · rw [List.find?_eq_none]
    constructor
    · intro hnone y f hf hyear
      obtain ⟨hf, hp⟩ := (hmem f).2 ⟨hyear, y, hf⟩
      exact hnone f hf hp
    · intro hnone f hf hp
      obtain ⟨hyear, y, hf⟩ := (hmem f).1 ⟨hf, hp⟩
      exact hnone y f hf hyear

/-- The tenth of Tevet, the fourth month, did not fall in 2011 and fell twice in 2012. -/
theorem inYear?_tenth_of_tevet :
    HasFourDigits 2012 ∧
      Date.IsEarliest (fun f => f.year = 2012 ∧ ∃ hebrewYear, date? hebrewYear 4 10 = some f)
        ⟨⟨2012, 1, 5⟩, by decide⟩ ∧
      date? 5773 4 10 = some ⟨⟨2012, 12, 23⟩, by decide⟩ ∧
      ∀ hebrewYear f, date? hebrewYear 4 10 = some f → f.year ≠ 2011 := by
  have htwice : inYear? 2012 4 10 = some ⟨⟨2012, 1, 5⟩, by decide⟩ := by decide +kernel
  have hsecond : date? 5773 4 10 = some ⟨⟨2012, 12, 23⟩, by decide⟩ := by decide +kernel
  have hnone : inYear? 2011 4 10 = none := by decide +kernel
  exact ⟨by decide, ((inYear?_isEarliest (by decide) 4 10).1 _).1 htwice, hsecond,
    (inYear?_isEarliest (by decide) 4 10).2.1 hnone⟩

end HolidayRules.Hebrew
