import HolidayRules.Date.Month
import HolidayRules.Proofs.Date.Days

set_option autoImplicit false

/-!
# The days of a month

The first days of successive months lie one month length apart. From this follows where the edges of
a month are, what becomes of a day that the month lacks, and which days the numbered weekdays are.
-/
namespace HolidayRules

namespace YearMonth

def InRange (m : YearMonth) : Prop :=
  (minYear ≤ m.year ∧ m.year ≤ maxYear) ∧ 1 ≤ m.month ∧ m.month ≤ 12

instance (m : YearMonth) : Decidable m.InRange := by
  unfold InRange
  infer_instance

def length (m : YearMonth) : Nat := monthLength m.year m.month

def firstNumber (m : YearMonth) : Int :=
  daysBeforeYear m.year + daysBeforeMonth m.year m.month + 1

theorem length_bounds (m : YearMonth) : 28 ≤ m.length ∧ m.length ≤ 31 := by
  unfold length monthLength
  split
  · split <;> omega
  all_goals omega

theorem month_ne_december {m : YearMonth} {day : Nat} (hl : m.length < day)
    (hd : day ≤ 31) : m.month ≠ 12 := by
  intro hmonth
  have hlength : m.length = 31 := by
    unfold length
    rw [hmonth]
    rfl
  omega

theorem ofIndex_index {m : YearMonth} (h : 1 ≤ m.month ∧ m.month ≤ 12) : ofIndex m.index = m := by
  obtain ⟨y, k⟩ := m
  dsimp only at h
  have hy : (y * 12 + ((k : Int) - 1)) / 12 = y := by omega
  have hk : ((y * 12 + ((k : Int) - 1)) % 12).toNat + 1 = k := by omega
  unfold ofIndex index
  dsimp only
  rw [hy, hk]

theorem index_ofIndex (i : Int) : (ofIndex i).index = i := by
  unfold ofIndex index
  dsimp only
  omega

theorem index_plus (m : YearMonth) (months : Int) : (m.plus months).index = m.index + months :=
  index_ofIndex _

theorem plus_plus (m : YearMonth) (first second : Int) :
    (m.plus first).plus second = m.plus (first + second) := by
  unfold plus
  rw [index_ofIndex, Int.add_assoc]

theorem plus_zero {m : YearMonth} (h : 1 ≤ m.month ∧ m.month ≤ 12) : m.plus 0 = m := by
  unfold plus
  rw [Int.add_zero, ofIndex_index h]

theorem plus_one {m : YearMonth} (h : 1 ≤ m.month ∧ m.month ≤ 12) :
    m.plus 1 = if m.month = 12 then ⟨m.year + 1, 1⟩ else ⟨m.year, m.month + 1⟩ := by
  obtain ⟨y, k⟩ := m
  dsimp only at h ⊢
  unfold plus
  split
  · have hi : index ⟨y, k⟩ + 1 = index ⟨y + 1, 1⟩ := by
      unfold index
      dsimp only
      omega
    rw [hi, ofIndex_index (by dsimp only; omega)]
  · have hi : index ⟨y, k⟩ + 1 = index ⟨y, k + 1⟩ := by
      unfold index
      dsimp only
      omega
    rw [hi, ofIndex_index (by dsimp only; omega)]

theorem firstNumber_plus_one {m : YearMonth} (h : 1 ≤ m.month ∧ m.month ≤ 12) :
    (m.plus 1).firstNumber = m.firstNumber + m.length := by
  have hs := daysBeforeMonth_succ m.year h.1
  rw [plus_one h]
  unfold firstNumber length
  split
  next hk =>
    rw [hk, daysBeforeMonth_thirteen] at hs
    have hy := daysBeforeYear_succ m.year
    have h1 : daysBeforeMonth (m.year + 1) 1 = 0 := rfl
    dsimp only
    rw [hk, h1]
    omega
  next =>
    dsimp only
    omega

theorem inRange_yearMonth (d : Date) : d.yearMonth.InRange := ⟨d.valid.1, d.valid.2.1⟩

theorem number_eq (d : Date) : d.number = d.yearMonth.firstNumber + d.day - 1 := by
  unfold Date.number firstNumber Date.yearMonth
  dsimp only
  omega

theorem exists_date {m : YearMonth} (hm : m.InRange) (day : Nat) (hd : 1 ≤ day ∧ day ≤ m.length) :
    ∃ d : Date, d.toYmd = ⟨m.year, m.month, day⟩ ∧ d.number = m.firstNumber + day - 1 :=
  ⟨⟨⟨m.year, m.month, day⟩, hm.1, hm.2, hd⟩, rfl, number_eq _⟩

theorem yearMonth_of_toYmd {m : YearMonth} {d : Date} {day : Nat}
    (h : d.toYmd = ⟨m.year, m.month, day⟩) : d.yearMonth = m := by
  unfold Date.yearMonth
  rw [h]

theorem yearMonth_eq_iff {m : YearMonth} (hm : m.InRange) {d : Date} :
    d.yearMonth = m ↔ m.firstNumber ≤ d.number ∧ d.number < m.firstNumber + m.length := by
  constructor
  · rintro rfl
    have hn := number_eq d
    obtain ⟨-, -, hday, hlast⟩ := d.valid
    change d.day ≤ d.yearMonth.length at hlast
    omega
  · rintro ⟨hlow, hhigh⟩
    obtain ⟨e, he, hn⟩ := exists_date hm (d.number - m.firstNumber + 1).toNat ⟨by omega, by omega⟩
    rw [Date.eq_of_number_eq (show d.number = e.number by omega)]
    exact yearMonth_of_toYmd he

theorem exists_first? {m : YearMonth} (hm : m.InRange) :
    ∃ d, m.first? = some d ∧ d.toYmd = ⟨m.year, m.month, 1⟩ ∧ d.number = m.firstNumber := by
  have hl := m.length_bounds
  obtain ⟨d, hd, hn⟩ := exists_date hm 1 ⟨by omega, by omega⟩
  refine ⟨d, ?_, hd, by omega⟩
  unfold first?
  rw [Ymd.date?_eq_some_iff, hd]

theorem first?_of_not_inRange {m : YearMonth} (hm : ¬ m.InRange) : m.first? = none := by
  rw [← Option.not_isSome_iff_eq_none, first?, Ymd.date?_isSome_iff]
  exact fun h => hm ⟨h.1, h.2.1⟩

theorem day?_one (m : YearMonth) : m.day? 1 = m.first? := by
  unfold day?
  cases m.first? with
  | none => rfl
  | some d => exact Date.daysLater?_zero d

theorem day?_eq_some_iff {m : YearMonth} (hm : m.InRange) {day : Nat} {e : Date} :
    m.day? day = some e ↔ e.number = m.firstNumber + day - 1 := by
  obtain ⟨d, hd, -, hn⟩ := exists_first? hm
  unfold day?
  rw [hd, Option.bind_some, Date.daysLater?_eq_some_iff, hn]
  omega

theorem day?_of_le {m : YearMonth} (hm : m.InRange) {day : Nat} (hd : 1 ≤ day ∧ day ≤ m.length) :
    ∃ e, m.day? day = some e ∧ e.toYmd = ⟨m.year, m.month, day⟩ := by
  obtain ⟨e, he, hn⟩ := exists_date hm day hd
  exact ⟨e, (day?_eq_some_iff hm).2 hn, he⟩

theorem day?_day (d : Date) : d.yearMonth.day? d.day = some d :=
  (day?_eq_some_iff (inRange_yearMonth d)).2 (number_eq d)

theorem day?_of_gt {m : YearMonth} (hm : m.InRange) (hm' : (m.plus 1).InRange) {day : Nat}
    (hd : m.length < day ∧ day ≤ m.length + (m.plus 1).length) :
    ∃ e, m.day? day = some e ∧
      e.toYmd = ⟨(m.plus 1).year, (m.plus 1).month, day - m.length⟩ := by
  obtain ⟨e, he, hn⟩ := exists_date hm' (day - m.length) ⟨by omega, by omega⟩
  refine ⟨e, (day?_eq_some_iff hm).2 ?_, he⟩
  rw [hn, firstNumber_plus_one hm.2]
  omega

theorem exists_last? {m : YearMonth} (hm : m.InRange) (hm' : (m.plus 1).InRange) :
    ∃ d, m.last? = some d ∧ d.toYmd = ⟨m.year, m.month, m.length⟩ ∧
      d.number = m.firstNumber + m.length - 1 := by
  have hl := m.length_bounds
  obtain ⟨e, he, -, hn⟩ := exists_first? hm'
  obtain ⟨d, hd, hn'⟩ := exists_date hm m.length ⟨by omega, Nat.le_refl _⟩
  refine ⟨d, ?_, hd, hn'⟩
  unfold last?
  rw [he, Option.bind_some, Date.daysLater?_eq_some_iff, hn, hn', firstNumber_plus_one hm.2]
  omega

/-- The weekday numbered `n` is the one among seven days, which begin `n - 1` weeks after the first
of the month. -/
theorem weekday?_eq_some_iff {m : YearMonth} (hm : m.InRange) {n : Int} (hn : 0 ≤ n) {w : Weekday}
    {d : Date} :
    m.weekday? n w = some d ↔
      d.weekday = w ∧ m.firstNumber + 7 * (n - 1) ≤ d.number ∧
        d.number < m.firstNumber + 7 * n := by
  obtain ⟨e, he, -, hf⟩ := exists_first? hm
  have hu := Weekday.daysUntil_lt e.weekday w
  unfold weekday?
  rw [if_neg (by omega), he, Option.bind_some, Date.daysLater?_eq_some_iff, ← Int.add_assoc]
  have hweekday : Weekday.ofNumber (e.number + e.weekday.daysUntil w + (n - 1) * 7) = w := by
    unfold Date.weekday
    rw [Weekday.ofNumber_add_weeks, Weekday.ofNumber_add_daysUntil]
  constructor
  · intro h
    refine ⟨?_, by omega, by omega⟩
    change Weekday.ofNumber d.number = w
    rw [h, hweekday]
  · rintro ⟨hw, hlow, hhigh⟩
    exact Weekday.eq_of_ofNumber_eq (hw.trans hweekday.symm) (by omega)

theorem exists_weekday? {m : YearMonth} (hm : m.InRange) {n : Int} (hn : 1 ≤ n ∧ n ≤ 4)
    (w : Weekday) :
    ∃ d, m.weekday? n w = some d ∧ d.yearMonth = m ∧ d.weekday = w ∧
      7 * (n - 1) < d.day ∧ d.day ≤ 7 * n := by
  have hl := m.length_bounds
  obtain ⟨e, he, -, hf⟩ := exists_first? hm
  have hu := Weekday.daysUntil_lt e.weekday w
  obtain ⟨d, hd, hk⟩ := exists_date hm ((e.weekday.daysUntil w + (n - 1) * 7).toNat + 1)
    ⟨by omega, by omega⟩
  have hw : m.weekday? n w = some d := by
    unfold weekday?
    rw [if_neg (by omega), he, Option.bind_some, Date.daysLater?_eq_some_iff, hk, hf]
    omega
  have hm' := yearMonth_of_toYmd hd
  obtain ⟨hday, hlo, hhi⟩ := (weekday?_eq_some_iff hm (by omega)).1 hw
  have hnum := number_eq d
  rw [hm'] at hnum
  exact ⟨d, hw, hm', hday, by omega, by omega⟩

theorem exists_last_weekday? {m : YearMonth} (hm : m.InRange) (hm' : (m.plus 1).InRange) {n : Int}
    (hn : n < 0) (w : Weekday) :
    ∃ d, m.weekday? n w = some d ∧ d.yearMonth = m ∧ d.weekday = w ∧ m.length < d.day + 7 := by
  have hl := m.length_bounds
  obtain ⟨e, he, -, hf⟩ := exists_last? hm hm'
  have hu := Weekday.daysUntil_lt w e.weekday
  obtain ⟨d, hd, hk⟩ := exists_date hm (m.length - w.daysUntil e.weekday)
    ⟨by omega, by omega⟩
  have hback : d.number = e.number - w.daysUntil e.weekday := by omega
  have hday : d.day = m.length - w.daysUntil e.weekday := by rw [hd]
  refine ⟨d, ?_, yearMonth_of_toYmd hd, ?_, by omega⟩
  · unfold weekday?
    rw [if_pos hn, he, Option.bind_some, Date.daysLater?_eq_some_iff]
    omega
  · unfold Date.weekday at hback ⊢
    rw [hback, Weekday.ofNumber_sub_daysUntil]

end YearMonth

namespace Date

theorem day_le (d : Date) : d.day ≤ 31 :=
  Nat.le_trans d.valid.2.2.2 (YearMonth.length_bounds d.yearMonth).2

@[simp] theorem monthsLater?_zero (d : Date) : d.monthsLater? 0 = some d := by
  unfold monthsLater?
  rw [YearMonth.plus_zero (YearMonth.inRange_yearMonth d).2, YearMonth.day?_day]

theorem monthsLater?_of_not_inRange {d : Date} {months : Int}
    (h : ¬ (d.yearMonth.plus months).InRange) : d.monthsLater? months = none := by
  unfold monthsLater? YearMonth.day?
  rw [YearMonth.first?_of_not_inRange h]
  rfl

theorem monthsLater?_of_le {d : Date} {months : Int} (h : (d.yearMonth.plus months).InRange)
    (hd : d.day ≤ (d.yearMonth.plus months).length) :
    ∃ e, d.monthsLater? months = some e ∧
      e.toYmd = ⟨(d.yearMonth.plus months).year, (d.yearMonth.plus months).month, d.day⟩ :=
  YearMonth.day?_of_le h ⟨d.valid.2.2.1, hd⟩

/-- A month that lacks a day is not the last one of its year, so that the month after it is
supported. -/
theorem monthsLater?_of_gt {d : Date} {months : Int} (h : (d.yearMonth.plus months).InRange)
    (hd : (d.yearMonth.plus months).length < d.day) :
    ∃ e, d.monthsLater? months = some e ∧
      e.toYmd = ⟨((d.yearMonth.plus months).plus 1).year, ((d.yearMonth.plus months).plus 1).month,
        d.day - (d.yearMonth.plus months).length⟩ ∧ 1 ≤ e.day ∧ e.day ≤ 3 := by
  have hday := d.day_le
  have hl := YearMonth.length_bounds (d.yearMonth.plus months)
  have hl' := YearMonth.length_bounds ((d.yearMonth.plus months).plus 1)
  have hnext : ((d.yearMonth.plus months).plus 1).InRange := by
    have hlast := YearMonth.month_ne_december hd hday
    obtain ⟨hyear, hmonth⟩ := h
    rw [YearMonth.plus_one hmonth, if_neg hlast]
    exact ⟨hyear, show 1 ≤ _ + 1 ∧ _ + 1 ≤ 12 by omega⟩
  obtain ⟨e, he, hy⟩ := YearMonth.day?_of_gt h hnext ⟨hd, by omega⟩
  have heday : e.day = d.day - (d.yearMonth.plus months).length := by rw [hy]
  exact ⟨e, he, hy, by omega, by omega⟩

/-- Every month has the first 28 days, so that nothing is lost on the way. -/
theorem monthsLater?_bind {d : Date} {first : Int} (second : Int)
    (h : (d.yearMonth.plus first).InRange) (hd : d.day ≤ 28) :
    (d.monthsLater? first).bind (·.monthsLater? second) = d.monthsLater? (first + second) := by
  have hl := YearMonth.length_bounds (d.yearMonth.plus first)
  obtain ⟨e, he, hy⟩ := monthsLater?_of_le h (Nat.le_trans hd hl.1)
  rw [he, Option.bind_some]
  unfold monthsLater?
  rw [YearMonth.yearMonth_of_toYmd hy, YearMonth.plus_plus, hy]

end Date
end HolidayRules
