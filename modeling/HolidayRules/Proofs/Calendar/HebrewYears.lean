import HolidayRules.Calendar.Hebrew
import HolidayRules.Proofs.Date.Days

set_option autoImplicit false

/-!
# The years of the Hebrew calendar

From one year to the next the mean conjunction moves on by twelve or thirteen mean months. Its
weekday and its time of the day decide how far apart the conjunction days of two years are. A distance
of 356 or 382 days fits no year; it always stands behind a short distance or before a long one, so
that the delays repair the one year without spoiling the other.
-/
namespace HolidayRules.Hebrew

def moonDay (year : Int) : Int := 29 * monthsBefore year + conjunctionParts year / 25920

def moonTime (year : Int) : Int := conjunctionParts year % 25920

/-- The days on which no year begins: Sunday, Wednesday and Friday. -/
def IsBarred (n : Int) : Prop := n % 7 = 0 ∨ n % 7 = 3 ∨ n % 7 = 5

def spacing (year : Int) : Int := conjunctionDay (year + 1) - conjunctionDay year

theorem isLeap_iff (year : Int) : isLeap year = true ↔ (7 * year + 1) % 19 < 7 := by
  unfold isLeap
  rw [decide_eq_true_eq]

theorem not_isLeap_succ {year : Int} (h : isLeap year = true) : isLeap (year + 1) = false := by
  rw [isLeap_iff] at h
  rw [← Bool.not_eq_true, isLeap_iff, show 7 * (year + 1) + 1 = 7 * year + 1 + 7 by omega]
  generalize 7 * year + 1 = place at h
  omega

theorem monthsBefore_succ (year : Int) :
    monthsBefore (year + 1) = monthsBefore year + if isLeap year then 13 else 12 := by
  have hmonths (y : Int) : monthsBefore y = 12 * y - 13 + (7 * y + 1 + 12) / 19 := by
    unfold monthsBefore
    omega
  simp only [hmonths, isLeap_iff, show 7 * (year + 1) + 1 = 7 * year + 1 + 7 by omega]
  generalize 7 * year + 1 = place
  split <;> omega

theorem moonTime_bounds (year : Int) : 0 ≤ moonTime year ∧ moonTime year < 25920 := by
  unfold moonTime
  omega

theorem conjunctionParts_eq (year : Int) :
    conjunctionParts year = moonTime year + 25920 * (moonDay year - 29 * monthsBefore year) := by
  unfold moonTime moonDay
  omega

theorem moon_succ_of_common {year : Int} (h : isLeap year = false) :
    (moonTime year < 16404 ∧ moonDay (year + 1) = moonDay year + 354 ∧
        moonTime (year + 1) = moonTime year + 9516) ∨
      16404 ≤ moonTime year ∧ moonDay (year + 1) = moonDay year + 355 ∧
        moonTime (year + 1) = moonTime year - 16404 := by
  have ht := moonTime_bounds year
  have ht' := moonTime_bounds (year + 1)
  have hp := conjunctionParts_eq year
  have hp' := conjunctionParts_eq (year + 1)
  have hmonths := monthsBefore_succ year
  simp only [h, Bool.false_eq_true, if_false] at hmonths
  unfold conjunctionParts at hp hp'
  omega

theorem moon_succ_of_leap {year : Int} (h : isLeap year = true) :
    (moonTime year < 2651 ∧ moonDay (year + 1) = moonDay year + 383 ∧
        moonTime (year + 1) = moonTime year + 23269) ∨
      2651 ≤ moonTime year ∧ moonDay (year + 1) = moonDay year + 384 ∧
        moonTime (year + 1) = moonTime year - 2651 := by
  have ht := moonTime_bounds year
  have ht' := moonTime_bounds (year + 1)
  have hp := conjunctionParts_eq year
  have hp' := conjunctionParts_eq (year + 1)
  have hmonths := monthsBefore_succ year
  simp only [h, if_true] at hmonths
  unfold conjunctionParts at hp hp'
  omega

theorem isBarred_iff (n : Int) : IsBarred n ↔ 3 * n % 7 < 3 := by
  have hn : n % 7 = 0 ∨ n % 7 = 1 ∨ n % 7 = 2 ∨ n % 7 = 3 ∨ n % 7 = 4 ∨ n % 7 = 5 ∨ n % 7 = 6 := by
    omega
  unfold IsBarred
  rcases hn with h | h | h | h | h | h | h <;> omega

theorem conjunctionDay_cases (year : Int) :
    (IsBarred (moonDay year + 1) ∧ conjunctionDay year = moonDay year + 1) ∨
      (¬ IsBarred (moonDay year + 1) ∧ conjunctionDay year = moonDay year) := by
  rw [isBarred_iff]
  by_cases h : 3 * (moonDay year + 1) % 7 < 3
  · exact .inl ⟨h, if_pos h⟩
  · exact .inr ⟨h, if_neg h⟩

theorem not_isBarred_conjunctionDay (year : Int) : ¬ IsBarred (conjunctionDay year + 1) := by
  have hc := conjunctionDay_cases year
  unfold IsBarred at hc ⊢
  omega

theorem spacing_of_common {year : Int} (h : isLeap year = false) :
    353 ≤ spacing year ∧ spacing year ≤ 356 := by
  have hm := moon_succ_of_common h
  have hc := conjunctionDay_cases year
  have hc' := conjunctionDay_cases (year + 1)
  unfold spacing
  omega

theorem spacing_of_leap {year : Int} (h : isLeap year = true) :
    382 ≤ spacing year ∧ spacing year ≤ 385 := by
  have hm := moon_succ_of_leap h
  have hc := conjunctionDay_cases year
  have hc' := conjunctionDay_cases (year + 1)
  unfold spacing
  omega

/-- A year that 356 days follow is a common one, with its conjunction late on a Tuesday. -/
theorem moon_of_spacing_eq_356 {year : Int} (h : spacing year = 356) :
    isLeap year = false ∧ conjunctionDay year = moonDay year ∧ (moonDay year + 1) % 7 = 2 ∧
      16404 ≤ moonTime year := by
  have hleap : isLeap year = false := by
    rw [← Bool.not_eq_true]
    intro hl
    have := spacing_of_leap hl
    omega
  have hm := moon_succ_of_common hleap
  have hc := conjunctionDay_cases year
  have hc' := conjunctionDay_cases (year + 1)
  unfold spacing at h
  unfold IsBarred at hc hc'
  refine ⟨hleap, ?_⟩
  -- The first conjunction stands on a free day and the next, 355 days later, on a barred one. That is
  -- so from a Tuesday to a Sunday only.
  omega

theorem moon_of_spacing_eq_382 {year : Int} (h : spacing year = 382) :
    isLeap year = true ∧ conjunctionDay (year + 1) = moonDay (year + 1) ∧
      (moonDay (year + 1) + 1) % 7 = 1 ∧ 23269 ≤ moonTime (year + 1) := by
  have hleap : isLeap year = true := by
    rw [← Bool.not_eq_false]
    intro hl
    have := spacing_of_common hl
    omega
  have hm := moon_succ_of_leap hleap
  have ht := moonTime_bounds year
  have hc := conjunctionDay_cases year
  have hc' := conjunctionDay_cases (year + 1)
  unfold spacing at h
  unfold IsBarred at hc hc'
  refine ⟨hleap, ?_⟩
  -- The first conjunction stands on a barred day and the next, 383 days later, on a free one. That is
  -- so from a Wednesday to a Monday only.
  omega

theorem spacing_before_356 {year : Int} (h : spacing (year + 1) = 356) :
    (isLeap year = false → spacing year = 353) ∧ (isLeap year = true → spacing year = 383) := by
  obtain ⟨-, hday, hweekday, htime⟩ := moon_of_spacing_eq_356 h
  have ht := moonTime_bounds year
  have hc := conjunctionDay_cases year
  unfold IsBarred at hc
  unfold spacing
  constructor
  · intro hl
    have hm := moon_succ_of_common hl
    omega
  · intro hl
    have hm := moon_succ_of_leap hl
    omega

theorem spacing_after_382 {year : Int} (h : spacing year = 382) :
    isLeap (year + 1) = false ∧ spacing (year + 1) = 355 := by
  obtain ⟨hleap, hday, hweekday, htime⟩ := moon_of_spacing_eq_382 h
  have hnext := not_isLeap_succ hleap
  have hm := moon_succ_of_common hnext
  have hc := conjunctionDay_cases (year + 1 + 1)
  unfold IsBarred at hc
  refine ⟨hnext, ?_⟩
  unfold spacing
  omega

theorem lengthDelay_succ (year : Int) :
    lengthDelay (year + 1) =
      if spacing (year + 1) = 356 then 2 else if spacing year = 382 then 1 else 0 := by
  unfold lengthDelay spacing
  rw [Int.add_sub_cancel]

theorem yearLength_eq (year : Int) :
    yearLength year = spacing year + lengthDelay (year + 1) - lengthDelay year := by
  unfold yearLength yearStart spacing
  omega

theorem not_isBarred_yearStart (year : Int) : ¬ IsBarred (yearStart year) := by
  obtain ⟨before, rfl⟩ : ∃ before, year = before + 1 := ⟨year - 1, by omega⟩
  have hfree := not_isBarred_conjunctionDay (before + 1)
  unfold yearStart epoch
  rw [lengthDelay_succ]
  unfold IsBarred at hfree ⊢
  split
  next h =>
    obtain ⟨-, hday, hweekday, -⟩ := moon_of_spacing_eq_356 h
    omega
  next =>
    split
    next h =>
      obtain ⟨-, hday, hweekday, -⟩ := moon_of_spacing_eq_382 h
      omega
    next => omega

theorem yearLength_of_common {year : Int} (h : isLeap year = false) :
    353 ≤ yearLength year ∧ yearLength year ≤ 355 := by
  obtain ⟨before, rfl⟩ : ∃ before, year = before + 1 := ⟨year - 1, by omega⟩
  have hspacing := spacing_of_common h
  have hbefore : spacing (before + 1 + 1) = 356 → spacing (before + 1) = 353 := fun h356 =>
    (spacing_before_356 h356).1 h
  have hafter : spacing before = 382 → spacing (before + 1) = 355 := fun h382 =>
    (spacing_after_382 h382).2
  rw [yearLength_eq, lengthDelay_succ, lengthDelay_succ]
  omega

theorem yearLength_of_leap {year : Int} (h : isLeap year = true) :
    383 ≤ yearLength year ∧ yearLength year ≤ 385 := by
  obtain ⟨before, rfl⟩ : ∃ before, year = before + 1 := ⟨year - 1, by omega⟩
  have hspacing := spacing_of_leap h
  have hbefore : spacing (before + 1 + 1) = 356 → spacing (before + 1) = 383 := fun h356 =>
    (spacing_before_356 h356).2 h
  have hafter : spacing before ≠ 382 := by
    intro h382
    rw [(spacing_after_382 h382).1] at h
    cases h
  rw [yearLength_eq, lengthDelay_succ, lengthDelay_succ]
  omega

/-- No year begins on a Sunday, a Wednesday or a Friday; a common year has 353 to 355 days and a leap
year 383 to 385. -/
theorem yearStart_weekday_and_yearLength (year : Int) :
    (yearStart year % 7 ≠ 0 ∧ yearStart year % 7 ≠ 3 ∧ yearStart year % 7 ≠ 5) ∧
      Weekday.ofNumber (yearStart year) ∉ [.sunday, .wednesday, .friday] ∧
      yearLength year ∈ if isLeap year then [383, 384, 385] else [353, 354, 355] := by
  have hfree := not_isBarred_yearStart year
  unfold IsBarred at hfree
  refine ⟨by omega, ?_, ?_⟩
  · simp only [List.mem_cons, List.not_mem_nil, or_false, Weekday.ofNumber_eq_iff, Weekday.index]
    omega
  · cases hl : isLeap year with
    | false =>
      have := yearLength_of_common hl
      simp
      omega
    | true =>
      have := yearLength_of_leap hl
      simp
      omega

end HolidayRules.Hebrew
