import HolidayRules.Proofs.Calendar.HijriDays
import HolidayRules.Proofs.Date.Months

set_option autoImplicit false

/-!
# Hijri days in a Gregorian year

A Hijri year is at least ten days shorter than a Gregorian one, so that every month and day that all
Hijri years have falls into each Gregorian year, once or twice. A thirtieth day that the month lacks
is taken for the first of the month after it.
-/
namespace HolidayRules.HijriDate

def InEveryYear (month day : Nat) : Prop :=
  (1 ≤ month ∧ month ≤ 12) ∧ (1 ≤ day ∧ day ≤ 29 ∨ day = 30 ∧ month % 2 = 1)

instance (month day : Nat) : Decidable (InEveryYear month day) :=
  inferInstanceAs (Decidable (_ ∧ _))

theorem inEveryYear_iff {month day : Nat} :
    InEveryYear month day ↔ ∀ year, IsValid ⟨year, month, day⟩ := by
  constructor
  · rintro ⟨hm, hd⟩ year
    have hlength := monthLength_bounds year month
    refine ⟨hm, ?_⟩
    rcases hd with hd | ⟨rfl, hodd⟩
    · exact ⟨hd.1, by dsimp only; omega⟩
    · have hthirty : monthLength year month = 30 := if_pos (.inl hodd)
      exact ⟨show 1 ≤ 30 by decide, Nat.le_of_eq hthirty.symm⟩
  · intro h
    obtain ⟨hm, hd, hlast⟩ := h 1
    refine ⟨hm, ?_⟩
    unfold monthLength at hlast
    dsimp only at hd hlast
    split at hlast <;> omega

/-! ## One month and day in successive years -/

theorem yearStart_step (year : Int) :
    yearStart year + 354 ≤ yearStart (year + 1) ∧ yearStart (year + 1) ≤ yearStart year + 355 := by
  unfold yearStart
  omega

theorem number_step (year : Int) (month day : Nat) :
    number ⟨year, month, day⟩ + 354 ≤ number ⟨year + 1, month, day⟩ ∧
      number ⟨year + 1, month, day⟩ ≤ number ⟨year, month, day⟩ + 355 := by
  have hyear := yearStart_step year
  rw [number_eq, number_eq]
  dsimp only
  omega

theorem number_mono {a b : Int} (h : a ≤ b) (month day : Nat) :
    number ⟨a, month, day⟩ ≤ number ⟨b, month, day⟩ := by
  have hyear := yearStart_mono h
  rw [number_eq, number_eq]
  dsimp only
  omega

theorem number_mem_year (year : Int) {month day : Nat} (hm : 1 ≤ month ∧ month ≤ 12)
    (hd : 1 ≤ day ∧ day ≤ 30) :
    yearStart year ≤ number ⟨year, month, day⟩ ∧
      number ⟨year, month, day⟩ ≤ yearStart (year + 1) := by
  have hyear := yearStart_step year
  have hfirst : daysBeforeMonth 1 = 0 := rfl
  have hlast : daysBeforeMonth 12 = 325 := rfl
  have hlow := daysBeforeMonth_mono (show (1 : Int) ≤ month by omega)
  have hhigh := daysBeforeMonth_mono (show (month : Int) ≤ 12 by omega)
  rw [number_eq]
  dsimp only
  omega

/-! ## The three years that are tried -/

/-- The Hijri year in which a Gregorian year begins. -/
def IsYearAtStart (year first : Int) : Prop :=
  yearStart first ≤ daysBeforeYear year + 1 ∧ daysBeforeYear year + 1 < yearStart (first + 1)

def candidates (first : Int) (month day : Nat) : List Date :=
  [first, first + 1, first + 2].filterMap fun y => date? ⟨y, month, day⟩

theorem inYear?_eq {year : Int} (hy : minYear ≤ year ∧ year ≤ maxYear) {month day : Nat}
    (hm : 1 ≤ month ∧ month ≤ 12) (hd : 1 ≤ day ∧ day ≤ 30) :
    ∃ first, IsYearAtStart year first ∧
      inYear? year month day = (candidates first month day).find? fun d => d.year = year := by
  obtain ⟨start, hstart, -, hfirst⟩ := YearMonth.exists_first? (m := ⟨year, 1⟩)
    ⟨hy, show 1 ≤ 1 ∧ 1 ≤ 12 by decide⟩
  have hnumber : start.number = daysBeforeYear year + 1 := by
    have hjanuary : YearMonth.firstNumber ⟨year, 1⟩ = daysBeforeYear year + (0 : Nat) + 1 := rfl
    omega
  refine ⟨(ofDate start).year, ?_, ?_⟩
  · have hbounds := year_bounds start.number
    rw [hnumber] at hbounds
    unfold IsYearAtStart ofDate ofNumber
    rw [hnumber]
    exact hbounds
  · unfold inYear?
    rw [if_pos ⟨hm, hd⟩, show (Ymd.mk year 1 1).date? = some start from hstart]
    rfl

theorem ascending_candidates (first : Int) (month day : Nat) :
    (candidates first month day).Pairwise fun d f => d.number < f.number := by
  have hyears : [first, first + 1, first + 2].Pairwise (· < ·) := by
    simp only [List.pairwise_cons, List.mem_cons, List.not_mem_nil, or_false, forall_eq_or_imp,
      forall_eq, false_implies, implies_true, List.Pairwise.nil, and_true]
    omega
  refine hyears.filterMap _ fun a b hlt d hd f hf => ?_
  have hstep := number_step a month day
  have hmono := number_mono (show a + 1 ≤ b by omega) month day
  rw [Date.number_of_ofNumber? hd, Date.number_of_ofNumber? hf]
  omega

theorem le_of_number_in_year {year first : Int} (hfirst : IsYearAtStart year first)
    {month day : Nat} (hm : 1 ≤ month ∧ month ≤ 12) (hd : 1 ≤ day ∧ day ≤ 30) {f : Date}
    (hf : f.year = year) {y : Int} (h : f.number = number ⟨y, month, day⟩) : y ≤ first + 2 := by
  refine Int.not_lt.1 fun hlate => ?_
  have hspan : yearStart (first + 1) + 366 ≤ yearStart y := by
    unfold yearStart
    omega
  have hlength := (daysBeforeYear_succ_bounds year).2
  have hday := (number_mem_year y hm hd).1
  have hbounds := f.year_bounds
  have hstart := hfirst.2
  rw [hf] at hbounds
  omega

theorem mem_candidates_iff {year first : Int} (hfirst : IsYearAtStart year first) {month day : Nat}
    (hm : 1 ≤ month ∧ month ≤ 12) (hd : 1 ≤ day ∧ day ≤ 30) {f : Date} (hf : f.year = year) :
    f ∈ candidates first month day ↔ ∃ y, first ≤ y ∧ f.number = number ⟨y, month, day⟩ := by
  unfold candidates date?
  simp only [List.mem_filterMap, Date.ofNumber?_eq_some_iff, List.mem_cons, List.not_mem_nil,
    or_false]
  constructor
  · rintro ⟨y, hy, hnumber⟩
    exact ⟨y, by omega, hnumber⟩
  · rintro ⟨y, hy, hnumber⟩
    have hlast := le_of_number_in_year hfirst hm hd hf hnumber
    exact ⟨y, by omega, hnumber⟩

theorem exists_mem_candidates {year first : Int} (hy : minYear ≤ year ∧ year ≤ maxYear)
    (hfirst : IsYearAtStart year first) {month day : Nat} (hm : 1 ≤ month ∧ month ≤ 12)
    (hd : 1 ≤ day ∧ day ≤ 30) : ∃ f ∈ candidates first month day, f.year = year := by
  have hlength := (daysBeforeYear_succ_bounds year).1
  have hyear := number_mem_year first hm hd
  have hnext := number_mem_year (first + 1) hm hd
  have hstep := number_step first month day
  have hlast := yearStart_step first
  obtain ⟨hstart, hend⟩ := hfirst
  have hin : ∃ y, first ≤ y ∧ daysBeforeYear year < number ⟨y, month, day⟩ ∧
      number ⟨y, month, day⟩ ≤ daysBeforeYear (year + 1) := by
    by_cases hbefore : number ⟨first, month, day⟩ ≤ daysBeforeYear year
    · exact ⟨first + 1, by omega, by omega, by omega⟩
    · exact ⟨first, by omega, by omega, by omega⟩
  obtain ⟨y, hle, hlow, hhigh⟩ := hin
  obtain ⟨f, hf⟩ := Date.exists_number_eq hy hlow hhigh
  have hfyear : f.year = year := Date.year_eq_of_number (by omega) (by omega)
  exact ⟨f, (mem_candidates_iff ⟨hstart, hend⟩ hm hd hfyear).2 ⟨y, hle, hf⟩, hfyear⟩

/-- What is found is the earliest day of the year with the number of such a Hijri date, from the Hijri
year on in which the Gregorian year begins. -/
theorem exists_inYear? {year : Int} (hy : minYear ≤ year ∧ year ≤ maxYear) {month day : Nat}
    (hm : 1 ≤ month ∧ month ≤ 12) (hd : 1 ≤ day ∧ day ≤ 30) :
    ∃ first e, IsYearAtStart year first ∧ inYear? year month day = some e ∧
      Date.IsEarliest
        (fun f => f.year = year ∧ ∃ y, first ≤ y ∧ f.number = number ⟨y, month, day⟩) e := by
  obtain ⟨first, hfirst, hfound⟩ := inYear?_eq hy hm hd
  obtain ⟨f, hmem, hf⟩ := exists_mem_candidates hy hfirst hm hd
  have hsome : ((candidates first month day).find? fun d => d.year = year).isSome :=
    List.find?_isSome.2 ⟨f, hmem, by simpa using hf⟩
  obtain ⟨e, he⟩ := Option.isSome_iff_exists.1 hsome
  refine ⟨first, e, hfirst, hfound.trans he, ?_⟩
  obtain ⟨⟨hmem, hyear⟩, hearliest⟩ :=
    Date.isEarliest_of_find? (ascending_candidates first month day) he
  have heyear : e.year = year := by simpa using hyear
  refine ⟨⟨heyear, (mem_candidates_iff hfirst hm hd heyear).1 hmem⟩, ?_⟩
  rintro f ⟨hf, hnumber⟩
  exact hearliest f ⟨(mem_candidates_iff hfirst hm hd hf).2 hnumber, by simpa using hf⟩

/-! ## Days that every year has -/

theorem isValid_number_ofNumber (n : Int) : (ofNumber n).IsValid ∧ (ofNumber n).number = n := by
  obtain ⟨d, hd, rfl⟩ := exists_isValid n
  rw [ofNumber_number hd]
  exact ⟨hd, rfl⟩

theorem ofDate_eq_iff {d : HijriDate} (hd : d.IsValid) {f : Date} :
    ofDate f = d ↔ f.number = d.number := by
  unfold ofDate
  constructor
  · rintro rfl
    exact (isValid_number_ofNumber f.number).2.symm
  · intro h
    rw [h, ofNumber_number hd]

theorem le_of_ofDate {year first : Int} (hfirst : IsYearAtStart year first) {d : HijriDate}
    (hd : d.IsValid) {f : Date} (hf : f.year = year) (h : ofDate f = d) : first ≤ d.year := by
  refine Int.not_lt.1 fun hbefore => ?_
  have hnumber := (ofDate_eq_iff hd).1 h
  have hbounds := f.year_bounds
  have hlast := (number_bounds hd).1.2
  have hmono := yearStart_mono (show d.year + 1 ≤ first by omega)
  have hstart := hfirst.1
  rw [hf] at hbounds
  omega

theorem isEarliest_of_isValid {year first : Int} (hfirst : IsYearAtStart year first)
    {month day : Nat} {e : Date} {h : Int}
    (he : Date.IsEarliest
      (fun f => f.year = year ∧ ∃ y, first ≤ y ∧ f.number = number ⟨y, month, day⟩) e)
    (hvalid : IsValid ⟨h, month, day⟩) (hnumber : e.number = number ⟨h, month, day⟩) :
    Date.IsEarliest (fun f => f.year = year ∧ ∃ y, ofDate f = ⟨y, month, day⟩) e := by
  refine ⟨⟨he.1.1, h, (ofDate_eq_iff hvalid).2 hnumber⟩, ?_⟩
  rintro f ⟨hf, y, hy⟩
  have hyvalid : IsValid ⟨y, month, day⟩ := hy ▸ (isValid_number_ofNumber f.number).1
  exact he.2 f ⟨hf, y, le_of_ofDate hfirst hyvalid hf hy, (ofDate_eq_iff hyvalid).1 hy⟩

/-- A month and a day that no Hijri year lacks are found in every Gregorian year, on the earliest date
of it on which they fall in any Hijri year. -/
theorem exists_inYear?_isEarliest {year : Int} (hy : minYear ≤ year ∧ year ≤ maxYear)
    {month day : Nat} (h : InEveryYear month day) :
    ∃ e, inYear? year month day = some e ∧
      Date.IsEarliest (fun f => f.year = year ∧ ∃ y, ofDate f = ⟨y, month, day⟩) e := by
  have hvalid := inEveryYear_iff.1 h
  have hd : 1 ≤ day ∧ day ≤ 30 := by
    obtain ⟨-, hd⟩ := h
    omega
  obtain ⟨first, e, hfirst, hfound, he⟩ := exists_inYear? hy h.1 hd
  obtain ⟨-, y, -, hnumber⟩ := he.1
  exact ⟨e, hfound, isEarliest_of_isValid hfirst he (hvalid y) hnumber⟩

/-- The first of Muharram fell twice in 2008. -/
theorem inYear?_muharram_of_2008 :
    (minYear ≤ 2008 ∧ 2008 ≤ maxYear) ∧ InEveryYear 1 1 ∧
      (∃ e, inYear? 2008 1 1 = some e ∧
        Date.IsEarliest (fun f => f.year = 2008 ∧ ∃ y, ofDate f = ⟨y, 1, 1⟩) e) ∧
      inYear? 2008 1 1 = some ⟨⟨2008, 1, 10⟩, by decide⟩ ∧
      ofDate ⟨⟨2008, 1, 10⟩, by decide⟩ = ⟨1429, 1, 1⟩ ∧
      ofDate ⟨⟨2008, 12, 29⟩, by decide⟩ = ⟨1430, 1, 1⟩ :=
  ⟨by decide, by decide, exists_inYear?_isEarliest (by decide) (by decide), by decide +kernel,
    by decide, by decide⟩

/-! ## The thirtieth of a month -/

def firstAfter (year : Int) (month : Nat) : HijriDate :=
  if month = 12 then ⟨year + 1, 1, 1⟩ else ⟨year, month + 1, 1⟩

theorem isValid_first (year : Int) {month : Nat} (hm : 1 ≤ month ∧ month ≤ 12) :
    IsValid ⟨year, month, 1⟩ := by
  have hlength := monthLength_bounds year month
  refine ⟨hm, Nat.le_refl 1, ?_⟩
  dsimp only
  omega

theorem isValid_firstAfter (year : Int) {month : Nat} (hm : 1 ≤ month ∧ month ≤ 12) :
    (firstAfter year month).IsValid := by
  unfold firstAfter
  split
  · exact isValid_first (year + 1) (show 1 ≤ 1 ∧ 1 ≤ 12 by decide)
  · exact isValid_first year (show 1 ≤ month + 1 ∧ month + 1 ≤ 12 by omega)

theorem number_firstAfter (year : Int) {month : Nat} (hm : 1 ≤ month ∧ month ≤ 12) :
    (firstAfter year month).number = number ⟨year, month, monthLength year month + 1⟩ := by
  unfold firstAfter
  split
  next h12 =>
    subst h12
    have hyear := yearStart_succ year
    have hfirst : daysBeforeMonth ((1 : Nat) : Int) = 0 := rfl
    have hlast : daysBeforeMonth ((12 : Nat) : Int) = daysBeforeMonth 12 := rfl
    rw [number_eq, number_eq]
    dsimp only
    omega
  next h12 =>
    have hmonth := daysBeforeMonth_succ year (show 1 ≤ month ∧ month < 12 by omega)
    have hnext : daysBeforeMonth ((month + 1 : Nat) : Int) = daysBeforeMonth (month + 1) := rfl
    rw [number_eq, number_eq]
    dsimp only
    omega

theorem bounds_of_inYear? {year : Int} {month day : Nat} {e : Date}
    (h : inYear? year month day = some e) :
    (minYear ≤ year ∧ year ≤ maxYear) ∧ (1 ≤ month ∧ month ≤ 12) ∧ 1 ≤ day ∧ day ≤ 30 := by
  unfold inYear? at h
  split at h
  next hbounds =>
    obtain ⟨start, hstart, -⟩ := Option.bind_eq_some_iff.1 h
    have hyear := start.valid.1
    rw [← Ymd.date?_eq_some_iff.1 hstart] at hyear
    exact ⟨hyear, hbounds⟩
  next => cases h

theorem ofDate_of_number_thirtieth {e : Date} {h : Int} {month : Nat} (hm : 1 ≤ month ∧ month ≤ 12)
    (hshort : monthLength h month ≠ 30) (hnumber : e.number = number ⟨h, month, 30⟩) :
    ofDate e = firstAfter h month := by
  have hlength := monthLength_bounds h month
  have h29 : monthLength h month = 29 := by omega
  rw [ofDate_eq_iff (isValid_firstAfter h hm), number_firstAfter h hm, h29]
  exact hnumber

/-- For day 30 a date is found in every supported year. Where the month has thirty days in the Hijri
year that is met, it is the earliest thirtieth; otherwise it is the first of the month after. -/
theorem inYear?_thirtieth (year : Int) (month : Nat) :
    ((inYear? year month 30).isSome ↔
      (minYear ≤ year ∧ year ≤ maxYear) ∧ 1 ≤ month ∧ month ≤ 12) ∧
    ∀ e, inYear? year month 30 = some e → e.year = year ∧ ∃ h,
      (monthLength h month = 30 → ofDate e = ⟨h, month, 30⟩ ∧
        Date.IsEarliest (fun f => f.year = year ∧ ∃ y, ofDate f = ⟨y, month, 30⟩) e) ∧
      (monthLength h month ≠ 30 → ofDate e = firstAfter h month) := by
  have hthirty : 1 ≤ 30 ∧ 30 ≤ 30 := by decide
  constructor
  · rw [Option.isSome_iff_exists]
    constructor
    · rintro ⟨e, he⟩
      obtain ⟨hy, hm, -⟩ := bounds_of_inYear? he
      exact ⟨hy, hm⟩
    · rintro ⟨hy, hm⟩
      obtain ⟨-, e, -, hfound, -⟩ := exists_inYear? hy hm hthirty
      exact ⟨e, hfound⟩
  · intro e he
    obtain ⟨hy, hm, -⟩ := bounds_of_inYear? he
    obtain ⟨first, d, hfirst, hfound, hearliest⟩ := exists_inYear? hy hm hthirty
    obtain rfl : d = e := Option.some.inj (hfound.symm.trans he)
    obtain ⟨hyear, h, -, hnumber⟩ := hearliest.1
    refine ⟨hyear, h, fun hlong => ?_, fun hshort => ofDate_of_number_thirtieth hm hshort hnumber⟩
    have hvalid : IsValid ⟨h, month, 30⟩ := ⟨hm, hthirty.1, Nat.le_of_eq hlong.symm⟩
    have hofDate := (ofDate_eq_iff hvalid).2 hnumber
    exact ⟨hofDate, isEarliest_of_isValid hfirst hearliest hvalid hnumber⟩

theorem inYear?_thirtieth_of_2018 :
    inYear? 2018 12 30 = some ⟨⟨2018, 9, 11⟩, by decide⟩ ∧
      ofDate ⟨⟨2018, 9, 11⟩, by decide⟩ = ⟨1439, 12, 30⟩ ∧ ∃ h,
      (monthLength h 12 = 30 → ofDate ⟨⟨2018, 9, 11⟩, by decide⟩ = ⟨h, 12, 30⟩ ∧
        Date.IsEarliest (fun f => f.year = 2018 ∧ ∃ y, ofDate f = ⟨y, 12, 30⟩)
          ⟨⟨2018, 9, 11⟩, by decide⟩) ∧
      (monthLength h 12 ≠ 30 → ofDate ⟨⟨2018, 9, 11⟩, by decide⟩ = firstAfter h 12) := by
  have hfound : inYear? 2018 12 30 = some ⟨⟨2018, 9, 11⟩, by decide⟩ := by decide +kernel
  exact ⟨hfound, by decide, ((inYear?_thirtieth 2018 12).2 _ hfound).2⟩

/-- The second month never has a day 30, and yet a date is found: the first of the third month. -/
theorem inYear?_thirtieth_of_safar :
    ¬ ∀ (year : Int) (month : Nat) (e : Date), inYear? year month 30 = some e →
      (ofDate e).month = month ∧ (ofDate e).day = 30 := by
  intro h
  have hfound : inYear? 2018 2 30 = some ⟨⟨2018, 11, 10⟩, by decide⟩ := by decide +kernel
  have hdate : ofDate ⟨⟨2018, 11, 10⟩, by decide⟩ = ⟨1440, 3, 1⟩ := by decide
  have hday := (h 2018 2 _ hfound).2
  rw [hdate] at hday
  exact absurd hday (by decide)

end HolidayRules.HijriDate
